import ScriptCore.Proofs.Deeper
import ScriptCore.Proofs.PausedFunctions
import ScriptCore.Proofs.Routines

/-!
# Bodies at another call depth

Two activations of one body are `Framed` if they have one frame, on machines of which one may be
deeper. Every step of the body keeps them so, whatever the body reads, since the stacks agree from
the base of the frame on. Where a body is suspended it leaves one link on both machines
(`leaveBody_alongside`), and what it asks for in between is taken to keep one machine deeper
(`Sustained`): that is what the induction over the nesting of calls gives.
-/

namespace ScriptCore

open Machine

/-- Two runs after which one machine is still deeper, unless the deeper run is given up. -/
abbrev Alongside (g : Gap) (r r' : EStateM.Result Unwind (Machine Empty PUnit) Unit) : Prop :=
  Endures (· = .overflow) (fun _ => Deeper g) (fun _ _ => Deeper g) r r'

/-- Requests in windows above the base are carried out alike, unless the deeper run is given up. -/
def Sustained (P : Perform Empty PUnit) : Prop :=
  ∀ {g : Gap} {a b : Machine Empty PUnit} (request : Request), Deeper g a b →
    g.base ≤ request.window.base → Alongside g (P request a) (P request b)

/-! ## Framed activations -/

/-- Two activations with one frame above the base, on machines of which one may be deeper. -/
structure Framed (g : Gap) (x y : Active Empty PUnit) : Prop where
  deeper : Deeper g x.machine y.machine
  frame : x.frame = y.frame
  base : g.base ≤ x.frame.view.base

/-- Two bodies that have ended early. If they are suspended, they still have one frame. -/
def Interrupted (g : Gap) : Unwind → Active Empty PUnit → Active Empty PUnit → Prop
  | .suspend _, x, y => Framed g x y
  | _, x, y => Deeper g x.machine y.machine

/-- Two bodies that have been run. -/
abbrev BodiesEnd (g : Gap) (r r' : EStateM.Result Unwind (Active Empty PUnit) Unit) : Prop :=
  Endures (· = .overflow) (Interrupted g) (fun _ _ x y => Deeper g x.machine y.machine) r r'

section Framed

variable {g : Gap} {x y x' y' : Active Empty PUnit} {f : Frame} {K : Nat → Prop}
variable {α β γ δ : Type} {P : Perform Empty PUnit}
variable {Q : α → β → Active Empty PUnit → Active Empty PUnit → Prop}
variable {W : γ → δ → Active Empty PUnit → Active Empty PUnit → Prop}

theorem Interrupted.of_plain {e : Unwind} (he : e.Plain) (h : Deeper g x.machine y.machine) :
    Interrupted g e x y := by
  cases e with
  | suspend s => exact he.elim
  | fault | overflow | exhausted => exact h

theorem Interrupted.of_framed {e : Unwind} (h : Framed g x y) : Interrupted g e x y := by
  cases e with
  | suspend s => exact h
  | fault | overflow | exhausted => exact h.deeper

/-- A yield ends alike on both machines, and changes neither. -/
theorem Deeper.yieldValues_ends {a b : Machine Empty PUnit} (h : Deeper g a b) (values : List Val) :
    ∃ e, (yieldValues values : M Empty PUnit Unit) a = .error e a ∧
      (yieldValues values : M Empty PUnit Unit) b = .error e b := by
  rw [yieldValues_eq, yieldValues_eq, ← h.current, ← h.boundaries]
  split
  · exact ⟨_, rfl, rfl⟩
  · split <;> exact ⟨_, rfl, rfl⟩

/-- The place at which two activations stand. -/
abbrev Active.origin (x y : Active Empty PUnit) : Origin Empty PUnit :=
  Gap.origin x.frame.view.base x.machine y.machine

theorem Active.oneBody (x y : Active Empty PUnit) : (x.origin y).OneBody :=
  ⟨fun _ => rfl, fun _ => id⟩

/-- Every operation of a body corresponds to itself. -/
theorem Active.corresponds (x y : Active Empty PUnit) (p : Proto) (pc : Nat) (op : Op) :
    Corresponds (x.origin y) p p pc pc op op :=
  .refl (x.oneBody y) (Scope.nests_self fun _ _ _ => rfl) pc op

namespace Framed

/-- The two activations agree on every register. -/
theorem twin (h : Framed g x y) : Twin (x.origin y) (fun _ => True) x.frame x y :=
  { h.deeper.parted h.base with
    leftFrame := rfl
    rightFrame := h.frame.symm
    regs := fun r _ => (h.deeper.parted h.base).shared r trivial
    bare := fun _ _ => False.elim }

/-- Both activations go on. -/
theorem go (h : Framed g x y) (ht : Twin (x.origin y) K f x' y') : Framed g x' y' where
  deeper := h.deeper.go ht.toParted
  frame := ht.leftFrame.trans ht.rightFrame.symm
  base := by
    rw [ht.leftFrame]
    exact h.base

/-- Steps that run in step, and what follows them. -/
theorem after (h : Framed g x y) {s : Body Empty PUnit α} {t : Body Empty PUnit β}
    {k : α → Body Empty PUnit γ} {l : β → Body Empty PUnit δ}
    (hs : Paired (Apart (x.origin y)) (Twin (x.origin y) (fun _ => True) x.frame) s t Q)
    (hk : ∀ u w x y, Q u w x y → Endures (· = .overflow) (Interrupted g) W (k u x) (l w y)) :
    Endures (· = .overflow) (Interrupted g) W ((s >>= k) x) ((t >>= l) y) :=
  Endures.bind (.inr (hs.concur h.twin fun _ _ _ he ha => .of_plain he (h.deeper.go ha))) hk

/-- A step of registers and objects, and what follows it. -/
theorem seq (h : Framed g x y) {s : Body Empty PUnit α} {k l : α → Body Empty PUnit Unit}
    (hs : Paired (Apart (x.origin y)) (Twin (x.origin y) (fun _ => True) x.frame) s s
      fun u v x' y' => u = v ∧ Twin (x.origin y) K f x' y')
    (hk : ∀ u x y, Framed g x y → BodiesEnd g (k u x) (l u y)) :
    BodiesEnd g ((s >>= k) x) ((s >>= l) y) :=
  h.after hs fun u _ x y hxy => hxy.1 ▸ hk u x y (h.go hxy.2)

/-- What follows a look at the frame. -/
theorem atFrame (h : Framed g x y) {k l : Frame → Body Empty PUnit Unit}
    (hk : BodiesEnd g (k x.frame x) (l x.frame y)) :
    BodiesEnd g ((Body.frame >>= k) x) ((Body.frame >>= l) y) := by
  show BodiesEnd g (k x.frame x) (l y.frame y)
  rw [← h.frame]
  exact hk

/-- A last step of registers and objects. -/
theorem last (h : Framed g x y) {s : Body Empty PUnit Unit}
    (hs : Paired (Apart (x.origin y)) (Twin (x.origin y) (fun _ => True) x.frame) s s
      fun u v x' y' => u = v ∧ Twin (x.origin y) K f x' y') : BodiesEnd g (s x) (s y) :=
  (Endures.mono (.inr (hs.concur h.twin fun _ _ _ he ha => .of_plain he (h.deeper.go ha)))
    (fun _ h => h) (fun _ _ _ h => h) fun _ _ _ _ hxy => (h.go hxy.2).deeper)

/-- A request that a body makes. -/
theorem request (h : Framed g x y) (hP : Sustained P) {r : Request}
    (hr : x.frame.view.base ≤ r.window.base) :
    Endures (· = .overflow) (Interrupted g) (fun _ _ => Framed g) (Body.lift (P r) x)
      (Body.lift (P r) y) := by
  obtain ⟨frame, a⟩ := x
  obtain ⟨_, b⟩ := y
  obtain ⟨hdeeper, rfl, hbase⟩ := h
  have hends := hP r hdeeper (Nat.le_trans hbase hr)
  unfold Body.lift
  dsimp only at hends ⊢
  obtain ⟨e, t, ht, he⟩ | hends := hends
  · rw [ht]
    exact .inl ⟨e, ⟨frame, t⟩, rfl, he⟩
  · cases hx : P r a <;> cases hy : P r b <;> rw [hx, hy] at hends
    case ok.ok => exact .ok ⟨hends, rfl, hbase⟩
    case ok.error => exact hends.elim
    case error.ok => exact hends.elim
    case error.error =>
      obtain ⟨rfl, hdeeper⟩ := hends
      exact .error (.of_framed ⟨hdeeper, rfl, hbase⟩)

/-- A call in a window over the frame, and what follows it. -/
theorem call (h : Framed g x y) (hP : Sustained P) {offset n : Nat} {w w' : View}
    (ht : Twin (x.origin y) K f x' y') (hw : Body.Offset (x.origin y) offset n w w' x' y')
    (target : Val) {k l : Body Empty PUnit Unit}
    (hk : ∀ x y, Framed g x y → BodiesEnd g (k x) (l y)) :
    BodiesEnd g ((do Body.lift (P (.call w target)); k) x')
      ((do Body.lift (P (.call w' target)); l) y') := by
  obtain rfl : w = w' := hw.left.trans hw.right.symm
  refine ((h.go ht).request hP ?_).bind fun _ _ x y hxy => hk x y hxy
  rw [ht.leftFrame, show (Request.call w target).window = w from rfl, hw.left]
  exact Nat.le_add_right _ _

/-- A yield, by which both bodies are suspended or neither is. -/
theorem yields (h : Framed g x y) (values : List Val) :
    BodiesEnd g (Body.lift (yieldValues values) x) (Body.lift (yieldValues values) y) := by
  obtain ⟨e, hx, hy⟩ := h.deeper.yieldValues_ends values
  rw [Body.lift_of_error hx, Body.lift_of_error hy]
  exact .error (.of_framed h)

end Framed

end Framed

section Bodies

variable {P : Perform Empty PUnit} (hP : Sustained P) {g : Gap} {x y : Active Empty PUnit}

include hP

/-! ## Compiled bodies -/

namespace Interpreter

variable (function : FnId) (p : Proto)

/-- A loop of a body. -/
theorem loop_framed (fuel : Nat) (pc : Nat) (h : Framed g x y) :
    BodiesEnd g (loop P function p fuel pc x) (loop P function p fuel pc y) := by
  induction fuel generalizing pc x y with
  | zero => exact .error h.deeper
  | succ fuel ih =>
    unfold loop
    cases hop : p.code[pc]? with
    | none => exact h.last (lift_paired fun hR => giveAll_inStep hR [])
    | some op =>
      dsimp only
      rw [execute_eq _ _ hop, bind_assoc]
      refine h.after (prepare_paired function (x.corresponds y p pc op) fun _ _ => trivial)
        fun turn turn' x' y' hturn => ?_
      cases turn <;> cases turn'
      case goto.goto next next' =>
        obtain ⟨hsame, -, f, -, -, -, -, hf⟩ := hturn
        obtain rfl : next' = next := Nat.succ.inj hsame
        exact ih next' (h.go hf)
      case done.done => exact .ok (h.go hturn.1).deeper
      case ask.ask w target w' target' =>
        obtain ⟨rfl, -, ht, n, hw⟩ := hturn
        simp only [finish, bind_assoc, pure_bind]
        refine h.call hP ht hw target fun x y hafter => hafter.after
          (complete_paired trivial (x.corresponds y p pc op) hop hop fun _ => ⟨rfl, rfl⟩)
          fun _ _ x' y' hcomplete => ?_
        obtain ⟨f, -, -, -, -, hf⟩ := hcomplete
        exact ih (pc + 1) (hafter.go hf)
      all_goals exact hturn.elim

/-- **Compiled bodies.** A body runs alike on one frame, from the segment that the frame names. -/
theorem run_framed (fuel : Nat) (h : Framed g x y) :
    BodiesEnd g (run fuel P function p x) (run fuel P function p y) := by
  cases hindex : x.frame.index with
  | zero =>
    rw [run_of_entry fuel P function p hindex, run_of_entry fuel P function p (h.frame ▸ hindex)]
    exact h.seq (reifyParams_paired p 0 p.params (fun _ _ _ => trivial) fun _ _ => id)
      fun _ x y hxy => loop_framed hP function p fuel 0 hxy
  | succ pc =>
    rw [run_of_index fuel P function p hindex, run_of_index fuel P function p (h.frame ▸ hindex)]
    cases hop : p.code[pc]? with
    | none =>
      have hviolation : complete p pc = (Body.lift (violate (.pastCode p.name pc)) :
          Body Empty PUnit Unit) := by simp [complete, hop]
      rw [hviolation]
      exact .error h.deeper
    | some op =>
      refine h.after (complete_paired trivial (x.corresponds y p pc op) hop hop
        fun _ => ⟨rfl, rfl⟩) fun _ _ x' y' hcomplete => ?_
      obtain ⟨f, -, -, -, -, hf⟩ := hcomplete
      exact loop_framed hP function p fuel (pc + 1) (h.go hf)

end Interpreter

/-! ## Hand-written bodies -/

namespace Routine

/-- A body that calls at most once, and what follows the call. -/
theorem callOnce_framed {x' y' : Active Empty PUnit} {K : Nat → Prop} {f : Frame} {offset : Nat}
    {turn turn' : Interpreter.Turn} {rest : Body Empty PUnit Unit} (h : Framed g x y)
    (hturn : Turned (x.origin y) K f offset turn turn' x' y')
    (hrest : ∀ x y, Framed g x y → BodiesEnd g (rest x) (rest y)) :
    BodiesEnd g (callOnce P rest turn x') (callOnce P rest turn' y') := by
  cases turn <;> cases turn'
  case done.done => exact .ok (h.go hturn).deeper
  case ask.ask w target w' target' =>
    obtain ⟨rfl, ht, n, hw⟩ := hturn
    exact h.call hP ht hw target hrest
  all_goals exact hturn.elim

theorem recurse_framed (packed : Bool) (h : Framed g x y) :
    BodiesEnd g (runRecurse P packed x) (runRecurse P packed y) := by
  have hend : ∀ x y, Framed g x y → BodiesEnd g (recurseEnd x) (recurseEnd y) :=
    fun x y h => h.last (recurseEnd_paired trivial)
  rw [runRecurse_eq]
  refine h.atFrame ?_
  by_cases hentry : x.frame.index = 0
  · show BodiesEnd g ((if x.frame.index = 0 then _ else _ : Body Empty PUnit Unit) x)
      ((if x.frame.index = 0 then _ else _ : Body Empty PUnit Unit) y)
    rw [if_pos hentry]
    exact h.after (recurseTurn_paired (x.oneBody y) packed rfl fun _ => ⟨trivial, trivial⟩)
      fun turn turn' x y hturn => callOnce_framed hP h hturn hend
  · show BodiesEnd g ((if x.frame.index = 0 then _ else _ : Body Empty PUnit Unit) x)
      ((if x.frame.index = 0 then _ else _ : Body Empty PUnit Unit) y)
    rw [if_neg hentry]
    split
    · exact hend x y h
    · exact .error h.deeper

theorem sumFrom_framed (add3 : Val) (count : Int64) (fuel : Nat) (h : Framed g x y) :
    BodiesEnd g (sumFrom P add3 count fuel x) (sumFrom P add3 count fuel y) := by
  induction fuel generalizing x y with
  | zero => exact .error h.deeper
  | succ fuel ih =>
    rw [sumFrom_succ]
    refine h.seq (sumCount_paired add3 trivial) fun i x y h => ?_
    refine h.after (sumTurn_paired (x.oneBody y) add3 count i trivial) fun turn turn' x' y' hturn =>
      callOnce_framed hP h hturn fun x y h => ?_
    exact h.seq (takeSum_paired trivial i) fun _ x y h => ih h

theorem sharedSum_framed (add3 : Val) (fuel : Nat) (h : Framed g x y) :
    BodiesEnd g (runSharedSum fuel P add3 x) (runSharedSum fuel P add3 y) := by
  unfold runSharedSum
  refine h.atFrame ?_
  refine h.seq (sumEntry_paired trivial add3 _ fun _ => trivial) fun _ x y h => ?_
  refine h.seq (Body.getSlot_paired trivial) fun v x y h => ?_
  refine h.seq (Interpreter.lift_paired fun _ => integer_inStep _ _) fun n x y h => ?_
  exact sumFrom_framed hP add3 n fuel h

omit hP in
theorem echo_framed (h : Framed g x y) :
    BodiesEnd g ((runEcho : Body Empty PUnit Unit) x) (runEcho y) := by
  have hinput (index : Nat) : Paired (Apart (x.origin y))
      (Twin (x.origin y) (fun _ => True) x.frame) (echoInput index : Body Empty PUnit Val) (echoInput index)
      fun u v x' y' => u = v ∧ Twin (x.origin y) (fun _ => True) x.frame x' y' := by
    unfold echoInput
    split
    · exact Body.getSlot_paired trivial
    · exact Interpreter.hear_paired trivial fun hears => result_inStep hears 0
    · exact Paired.throw trivial fun _ _ h => h.apart
  unfold runEcho
  refine h.atFrame (h.seq (hinput _) fun v x y h => ?_)
  refine h.seq (Interpreter.lift_paired fun _ => successor_inStep v) fun next x y h => ?_
  exact h.seq (Body.setIndex_paired rfl) fun _ x y h => h.yields [next]

/-- **Hand-written bodies.** They run alike on one frame. -/
theorem run_framed (r : Routine) (fuel : Nat) (h : Framed g x y) :
    BodiesEnd g (r.run fuel P x) (r.run fuel P y) := by
  cases r with
  | recurse packed => exact recurse_framed hP packed h
  | tailStep => exact h.last (runTailStep_paired fun _ _ => trivial)
  | bounce => exact h.last (runBounce_paired fun _ _ => trivial)
  | sharedSum add3 => exact sharedSum_framed hP add3 fuel h
  | echo => exact echo_framed h

end Routine

/-! ## Functions with a body -/

section Functions

variable {a b : Machine Empty PUnit} {function : FnId} {layout : Layout}
variable {body : Body Empty PUnit Unit}

omit hP in
/-- Bodies on one frame leave one link. -/
theorem leaveBody_alongside {r r' : EStateM.Result Unwind (Active Empty PUnit) Unit}
    (h : BodiesEnd g r r') : Alongside g (leaveBody function r) (leaveBody function r') := by
  obtain ⟨_, y, rfl, rfl⟩ | h := h
  · exact .inl ⟨_, y.machine, rfl, rfl⟩
  · cases r <;> cases r'
    case ok.ok => exact .ok h
    case ok.error => exact h.elim
    case error.ok => exact h.elim
    case error.error e x _ y =>
      obtain ⟨rfl, hinterrupted⟩ := h
      cases e with
      | suspend s =>
        obtain ⟨hdeeper, hframe, hbase⟩ := hinterrupted
        have hlink : linkOf function x.frame x.machine = linkOf function y.frame y.machine := by
          have hsnapshot : x.frame.view.snapshot x.machine.thread.stack x.frame.slots =
              x.frame.view.snapshot y.machine.thread.stack x.frame.slots :=
            View.snapshot_congr _ _ fun i _ =>
              hdeeper.slots (x.frame.view.base + i) (Nat.le_add_right_of_le hbase)
          unfold linkOf
          rw [← hframe, hsnapshot]
        obtain ⟨t, ht⟩ := suspendFrame_ok function x.frame s x.machine
        obtain ⟨t', ht'⟩ := suspendFrame_ok function y.frame s y.machine
        unfold leaveBody
        dsimp only
        rw [ht, ht', hlink]
        exact .error (hdeeper.setTrace t t')
      | fault | overflow | exhausted => exact .error hinterrupted

omit hP in
/-- A body that is entered. -/
theorem enterBody_alongside (h : Deeper g a b) {w : View} (hw : g.base ≤ w.base)
    (hbody : ∀ x y, Framed g x y → BodiesEnd g (body x) (body y)) :
    Alongside g (enterBody function layout body w a) (enterBody function layout body w b) := by
  obtain ⟨base, n⟩ := w
  refine h.afterWindows hw (openFrame_paired (o := Gap.origin base a b) layout rfl
    fun _ => False.elim) fun _ _ a' b' hopened => ?_
  obtain ⟨f, -, -, rfl, rfl, htwin⟩ := hopened
  rw [runBody_eq, runBody_eq]
  exact leaveBody_alongside (hbody _ _ ⟨h.go htwin.toParted, rfl, hw⟩)

/-- A body that is entered again. -/
theorem reenterBody_alongside (h : Deeper g a b) {w : View} (hw : g.base ≤ w.base)
    (hbody : ∀ x y, Framed g x y → BodiesEnd g (body x) (body y)) (name : String) (index : Nat)
    (saved : Saved) (inner : List Link) (values : List Val) :
    Alongside g (reenterBody P function name layout body w index saved inner values a)
      (reenterBody P function name layout body w index saved inner values b) := by
  obtain rfl | hindex := Nat.eq_zero_or_pos index
  · rw [reenterBody_zero, reenterBody_zero]
    exact .error h
  · obtain ⟨base, n⟩ := w
    rw [reenterBody_eq _ _ _ _ _ _ (Nat.ne_of_gt hindex)]
    obtain ⟨s, t, hs, hkept, hrun⟩ := reopen_ok (α := Unit) layout ⟨base, n⟩ index saved a
    obtain ⟨s', t', hs', hkept', hrun'⟩ := reopen_ok (α := Unit) layout ⟨base, n⟩ index saved b
    rw [hrun, hrun', continueBody_eq, continueBody_eq]
    have hparted : Parted (Gap.origin base a b) (a.restack s t) (b.restack s' t') := by
      refine (h.parted hw).restack hkept hkept' (fun i hi => ?_) t t'
      rw [hs, hs']
      exact View.even_restore n n 0 saved.slots i ((h.parted hw).shared i hi)
    have hframed : Framed g ⟨⟨⟨base, saved.top⟩, index, layout.slots, saved.varargs⟩, a.restack s t⟩
        ⟨⟨⟨base, saved.top⟩, index, layout.slots, saved.varargs⟩, b.restack s' t'⟩ :=
      ⟨h.go hparted, rfl, hw⟩
    have hreplay := hframed.request hP (r := .replay inner values ⟨base + layout.slots, 0⟩)
      (Nat.le_add_right base layout.slots)
    exact leaveBody_alongside (hreplay.bind fun _ _ x y hxy => hbody x y hxy)

end Functions

end Bodies

end ScriptCore
