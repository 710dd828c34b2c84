import ScriptCore.Proofs.PausedBodies

/-!
# Functions with pauses

Functions that are run beside each other, the left one with pauses. A body leaves a link when it is
suspended and is laid out again from it (`body_follows`); native functions are not suspended, since
what they call may not yield; a protected call is suspended with what it protects
(`protectedCall_follows`). `function_follows` puts these together.
-/

namespace ScriptCore

open Machine

/-! ## Functions with a body -/

section Body

variable {F S : Type}

/-- The body of a function, if it has one, with its name and its layout. -/
def Callable.body? (n : Nat) (P : Perform F S) (f : FnId) (c : Callable F) :
    Option (String × Layout × Body F S Unit) :=
  match c with
  | .closure proto _ => some (proto.name, proto.layout, Interpreter.run n P f proto)
  | .routine r => some (r.name, r.layout, r.run n P)
  | _ => none

variable {n : Nat} {P : Perform F S} {f : FnId} {name : String} {layout : Layout}
variable {body : Body F S Unit} {m : Machine F S}

theorem Callable.Kept.body?_eq {c d : Callable F} (h : c.Kept d) :
    d.body? n P f = c.body? n P f := by
  cases h <;> rfl

/-- A function with a body stays one. -/
theorem Machine.Evolves.body? {base : Nat} {t : Machine F S} (h : m.Evolves base t)
    (hbody : (m.heap.function f).body? n P f = some (name, layout, body)) :
    (t.heap.function f).body? n P f = some (name, layout, body) := by
  rw [(h.functions f (Nat.lt_of_not_le fun hf => ?_)).body?_eq, hbody]
  rw [Heap.function, Array.getD_eq_getD_getElem?, Array.getElem?_eq_none hf] at hbody
  cases hbody

variable [HostBody F S]

theorem runFunction_body
    (hbody : (m.heap.function f).body? n P f = some (name, layout, body)) (args : View) :
    runFunction n P f args m = enterBody f layout body args m := by
  unfold runFunction
  rw [functionAt_bind]
  cases hc : m.heap.function f with
  | closure proto cells => rw [hc] at hbody; cases hbody; rfl
  | routine r => rw [hc] at hbody; cases hbody; rfl
  | builtin | protectedCall | wrapped | host => rw [hc] at hbody; cases hbody

theorem reenterFunction_body {index : Nat} {saved : Saved}
    (hbody : (m.heap.function f).body? n P f = some (name, layout, body)) (inner : List Link)
    (values : List Val) (window : View) :
    reenterFunction n P ⟨f, index, saved⟩ inner values window m =
      reenterBody P f name layout body window index saved inner values m := by
  unfold reenterFunction
  dsimp only
  rw [functionAt_bind]
  cases hc : m.heap.function f with
  | closure proto cells => rw [hc] at hbody; cases hbody; rfl
  | routine r => rw [hc] at hbody; cases hbody; rfl
  | builtin | protectedCall | wrapped | host => rw [hc] at hbody; cases hbody

/-- What a function makes of the ending of its body. -/
def leaveBody (f : FnId) : EStateM.Result Unwind (Active F S) Unit →
    EStateM.Result Unwind (Machine F S) Unit
  | .ok _ s => .ok () s.machine
  | .error (.suspend u) s => suspendFrame f s.frame u s.machine
  | .error e s => .error e s.machine

theorem runBody_eq (f : FnId) (body : Body F S Unit) (frame : Frame) (m : Machine F S) :
    runBody f body frame m = leaveBody f (body ⟨frame, m⟩) := by
  unfold runBody leaveBody
  cases body ⟨frame, m⟩ with
  | ok u s => rfl
  | error e s => cases e <;> rfl

/-- A body that is re-entered is one that begins with the replay of what was pending in it. -/
theorem continueBody_eq (f : FnId) (body : Body F S Unit) (x : M F S Unit) (frame : Frame)
    (m : Machine F S) : (attempt x >>= continueBody f body frame) m =
      leaveBody f ((do Body.lift x; body : Body F S Unit) ⟨frame, m⟩) := by
  rw [attempt_bind]
  show _ = leaveBody f (EStateM.bind (Body.lift x) (fun _ => body) ⟨frame, m⟩)
  unfold EStateM.bind Body.lift
  dsimp only
  cases x m with
  | ok u t => exact runBody_eq f body frame t
  | error e t => cases e <;> rfl

end Body

/-! ## Endings -/

/-- What is made of the ending of an attempt. -/
def Machine.ended {F S α β : Type} (k : Except Unwind α → M F S β) :
    EStateM.Result Unwind (Machine F S) α → EStateM.Result Unwind (Machine F S) β
  | .ok u t => k (.ok u) t
  | .error e t => k (.error e) t

theorem Machine.attempt_ended {F S α β : Type} (x : M F S α) (k : Except Unwind α → M F S β)
    (m : Machine F S) : (attempt x >>= k) m = ended k (x m) := by
  rw [attempt_bind]
  cases x m <;> rfl

variable {D : Partner} {n n' : Nat} {κ : Budget} {y : Machine Answer Dialogue} {base : Nat}

/-- The stage of a body in a function that was last entered at a place. -/
structure Stage.Within (n : Nat) (f : FnId) (layout : Layout) (body : Body Answer Dialogue Unit)
    (st : Stage) (z : Place) : Prop where
  asked : st.asked = z.asked
  base : st.base = z.window.base
  evolves : z.machine.Evolves z.window.base st.active.machine
  coroutines : st.active.machine.heap.coroutines = z.machine.heap.coroutines
  slots : st.active.frame.slots = layout.slots
  body? : ∃ name, (z.machine.heap.function f).body? n (perform n) f = some (name, layout, body)

theorem Machine.Evolves.setTrace {F S : Type} {base : Nat} {m t : Machine F S} (h : m.Evolves base t)
    (x : Option (Array TraceEvent)) : m.Evolves base { t with trace := x } :=
  h.trans (Still.ofTrace t x).evolves

section Body

variable {f : FnId} {layout : Layout} {body : Body Answer Dialogue Unit} {st : Stage} {z : Place}

theorem Stage.Within.beside {y' : Machine Answer Dialogue} {base' : Nat}
    {a b : Machine Answer Dialogue} (h : st.Within n f layout body z)
    (hab : Beside D y' base' st.place a b) (hy : y.Evolves base y') (hbase : base ≤ base') :
    Beside D y base z a b :=
  hab.outward h.asked h.evolves h.coroutines (Nat.le_of_eq h.base.symm) hy hbase

/-- What a re-entered function makes of the link that its body has left: the frame is laid out
again, and the body is resumed on it. -/
theorem Stage.Within.reenter (h : st.Within n f layout body z) {s : Suspension} {z' : Place}
    {a : Active Answer Dialogue} {x : Option (Array TraceEvent)}
    (ha : (bodies D n body y base).left st s a)
    (hz : Reentered z ⟨s.values, linkOf f a.frame a.machine :: s.chain⟩
      { a.machine with trace := x } z') :
    ∃ st', (bodies D n body y base).again st s a st' ∧ st'.Within n f layout body z' ∧
      reenterFunction n (perform n) (linkOf f a.frame a.machine) s.chain (D.answer z') z'.window
        z'.machine = leaveBody f ((bodies D n body y base).re s.chain st') := by
  obtain ⟨hpaused, hindex, hslots, hbase⟩ := ha
  have hslots : a.frame.slots = layout.slots := hslots.trans h.slots
  obtain ⟨name, hbody⟩ := h.body?
  have hlater : (z'.machine.heap.function f).body? n (perform n) f = some (name, layout, body) := by
    have hfunctions : z'.machine.heap.function f = a.machine.heap.function f := by
      rw [Heap.function, hz.renewed.functions]
      rfl
    rw [hfunctions]
    exact hpaused.evolves.body? (h.evolves.body? hbody)
  obtain ⟨stack, trace, hstack, hkept, hrun⟩ := reopen_ok (α := Unit) layout z'.window
    a.frame.index (linkOf f a.frame a.machine).saved z'.machine
  let frame : Frame := ⟨⟨z'.window.base, a.frame.view.top⟩, a.frame.index, layout.slots,
    a.frame.varargs⟩
  let st' : Stage := ⟨⟨frame, z'.machine.restack stack trace⟩, z'.asked⟩
  have hframe : frame = a.frame.placed z'.window.base := by
    show Frame.mk _ _ layout.slots _ = _
    rw [← hslots]
    rfl
  refine ⟨st', ⟨⟨?_, { hz.renewed with }, hz.active⟩, hframe, fun r hr => ?_⟩, ?_, ?_⟩
  · show z'.asked = st.asked ++ [s.values]
    rw [h.asked]
    exact hz.asked
  · have hlength : (a.frame.view.snapshot a.machine.thread.stack a.frame.slots).length =
        a.frame.slots := View.length_snapshot ..
    show stack.slot (z'.window.base + r) = _
    rw [hstack, View.slot_restore, if_pos (by
      show _ ∧ _ < z'.window.base + (a.frame.view.snapshot _ _).length
      omega), Nat.add_sub_cancel_left]
    exact View.getD_snapshot _ _ hr
  · exact ⟨rfl, rfl, (undisturbed_restack _ _ _).evolves hkept, rfl, rfl, name, hlater⟩
  · show reenterFunction n (perform n) ⟨f, a.frame.index, (linkOf f a.frame a.machine).saved⟩
      s.chain _ _ _ = _
    rw [reenterFunction_body hlater, reenterBody_eq _ _ _ _ _ _ hindex, hrun, continueBody_eq]
    rfl

/-- What surrounds a body in its function. -/
theorem body_frames {y' : Machine Answer Dialogue} {base' : Nat} (hy : y.Evolves base y')
    (hbase : base ≤ base') :
    Follows.Frames (bodies D n body y' base') (reentries D n y base) (fun _ : Unit => leaveBody f)
      (leaveBody f) fun _ _ st z => st.Within n f layout body z where
  ok hjoins hok := .ok ⟨rfl, hjoins.beside hok hy hbase⟩
  error hjoins he herror := by
    rename_i e a b
    have hab := hjoins.beside herror hy hbase
    cases e with
    | suspend s => exact he.elim
    | fault | overflow | exhausted => exact .error he hab
  suspend hjoins hleft := by
    rename_i κ i st z s a
    obtain ⟨x, hx⟩ := suspendFrame_ok f a.frame s a.machine
    refine ⟨_, _, hx, ⟨⟨?_, hleft.1.coroutines.trans hjoins.coroutines, hleft.1.boundaries⟩,
      nofun⟩, fun _ z' hz => ?_⟩
    · have hevolves := hleft.1.evolves
      rw [show st.place.window.base = z.window.base from hjoins.base] at hevolves
      exact (hjoins.evolves.trans hevolves).setTrace x
    · obtain ⟨st', hagain, hwithin, hre⟩ := hjoins.reenter hleft hz
      exact ⟨(), st', hagain, hwithin, hre⟩
  exhaustedLeft _ _ := ⟨_, rfl⟩
  exhaustedRight _ := ⟨_, rfl⟩
  misplaced _ := ⟨_, rfl⟩

/-- Machines beside each other, with `k` equal slots from their bases on. -/
structure Handed (D : Partner) (y : Machine Answer Dialogue) (base : Nat) (st : Place) (k : Nat)
    (a b : Machine Answer Dialogue) : Prop extends Beside D y base st a b where
  slots : ∀ i < k, a.thread.stack.slot (st.window.base + i) = b.thread.stack.slot (base + i)

theorem Handed.closed (D : Partner) (y : Machine Answer Dialogue) (base : Nat) (st : Place)
    (k : Nat) : Closed (Handed D y base st k) where
  kin h := h.core.toKin
  steady h ha hb hk hr :=
    { (Beside.closed D y base st).steady h.toBeside ha hb hk hr with
      slots := fun i hi => by rw [ha.stack, hb.stack]; exact h.slots i hi }

theorem Handed.windows {st : Place} {k : Nat} {a b : Machine Answer Dialogue}
    (h : Handed D y base st k a b) : Windows (D.origin a b st.window.base base) k a b :=
  { h.parted st.window.base base with slots := h.slots, plain := False.elim }

theorem Handed.shares {st : Place} {k : Nat} :
    Shares (Handed D y base st k) ⟨st.window.base, k⟩ ⟨base, k⟩ :=
  ⟨rfl, fun h i hi => h.slots i hi⟩

/-- **Bodies in their functions.** A function follows itself if its body does. -/
theorem body_follows {st : Place} {k : Nat} {a b : Machine Answer Dialogue} {name : String}
    {body' : Body Answer Dialogue Unit} (h : Handed D y base st k a b)
    (hbody : (a.heap.function f).body? n (perform n) f = some (name, layout, body))
    (hfunction : (st.machine.heap.function f).body? n (perform n) f = some (name, layout, body))
    (hbody' : (b.heap.function f).body? n' (perform n') f = some (name, layout, body'))
    (hfollows : ∀ {g : Frame} {y : Machine Answer Dialogue} {st : Stage}
      {a b : Active Answer Dialogue}, g.index = 0 → g.slots = layout.slots →
      Parallel D y base (fun r => r < layout.slots) g st a b →
      Follows (bodies D n body y base) κ st (body a) (body' b)) :
    Follows (reentries D n y base) κ st (runFunction n (perform n) f ⟨st.window.base, k⟩ a)
      (runFunction n' (perform n') f ⟨base, k⟩ b) := by
  rw [runFunction_body hbody, runFunction_body hbody']
  have hframe := openFrame_paired (o := D.origin a b st.window.base base) (n := k) layout rfl
    fun _ => False.elim
  unfold enterBody
  refine Follows.after hframe h.windows
    (fun _ _ hp => h.go (Nat.le_refl _) (Nat.le_refl _) hp) fun u v a' b' hframe => ?_
  obtain ⟨g, hindex, hslots, rfl, rfl, htwin⟩ := hframe
  have hgo : Beside D y base st a' b' := h.go (Nat.le_refl _) (Nat.le_refl _) htwin.toParted
  let stage : Stage := ⟨⟨g.placed st.window.base, a'⟩, st.asked⟩
  have hparallel : Parallel D b' base (fun r => r < layout.slots) g stage
      ⟨g.placed st.window.base, a'⟩ ⟨g.placed base, b'⟩ :=
    { beside := hgo.restart _ _
      twin := { hgo.parted st.window.base base with
        leftFrame := rfl
        rightFrame := rfl
        regs := htwin.regs
        bare := fun _ _ => False.elim }
      slots := rfl }
  have hpart := hfollows hindex hslots hparallel
  have hframes : Follows.Frames (bodies D n body b' base) (reentries D n y base)
      (fun _ : Unit => leaveBody f) (leaveBody f) fun _ _ st z => st.Within n f layout body z :=
    body_frames hgo.right (Nat.le_refl _)
  have hwithin : stage.Within n f layout body st :=
    ⟨rfl, rfl, hgo.left, hgo.coroutines, hslots, name, hfunction⟩
  have hwhole := Follows.through hframes hpart (i := ()) hwithin
  rw [runBody_eq, runBody_eq]
  exact hwhole

end Body

/-! ## Calls that may not yield -/

/-- What a non-resumable call makes of the ending of its callee. -/
def outOfBoundary (name : String) : EStateM.Result Unwind (Machine Answer Dialogue) Unit →
    EStateM.Result Unwind (Machine Answer Dialogue) Unit
  | .ok _ t => .ok () (leaveBoundary t)
  | .error (.suspend _) t => .error (.fault (.yieldAcrossBoundary name)) (leaveBoundary t)
  | .error e t => .error e (leaveBoundary t)

section Natives

variable {st : Place} {a b : Machine Answer Dialogue} (hreq : Answered D n)
variable (hlevels : κ.Levels n n')

theorem Beside.bounded (h : Beside D y base st a b) (window : View) (base' : Nat) :
    Beside D (bounded b) base' ⟨window, bounded a, st.asked⟩ (bounded a) (bounded b) where
  core := { h.core with boundaries := congrArg (· + 1) h.core.boundaries }
  covers := h.covers
  left := .refl _ _
  coroutines := rfl
  right := .refl _ _
  host := h.host
  adders := h.adders
  active := h.active

/-- Leaving a boundary, both machines are as they were before it. -/
theorem Beside.unbounded {window : View} {base' : Nat} {a' b' : Machine Answer Dialogue}
    (h : Beside D y base st a b) (hl : st.window.base ≤ window.base) (hr : base ≤ base')
    (hab : Beside D (Machine.bounded b) base' ⟨window, Machine.bounded a, st.asked⟩ a' b') :
    Beside D y base st (leaveBoundary a') (leaveBoundary b') where
  core := { hab.core with boundaries := congrArg (· - 1) hab.core.boundaries }
  covers := hab.covers
  left := h.left.trans ((evolves_leaveBoundary hab.left).mono hl)
  coroutines := hab.coroutines.trans h.coroutines
  right := h.right.trans ((evolves_leaveBoundary hab.right).mono hr)
  host := hab.host
  adders := hab.adders
  active := hab.active

include hreq hlevels

/-- A call that may not yield is not suspended, and follows. -/
theorem callNonresumable_follows (h : Beside D y base st a b) (w w' : View) (target : Val)
    (name : String) (hl : st.window.base ≤ w.base) (hr : base ≤ w'.base) (htop : w.top = w'.top)
    (hslots : ∀ i < w.top, w.slot a.thread.stack i = w'.slot b.thread.stack i) :
    Follows (unpaused D y base Unit) κ st (callNonresumable (perform n) w target name a)
      (callNonresumable (perform n') w' target name b) := by
  have heq : ∀ (fuel : Nat) (w : View) (m : Machine Answer Dialogue),
      callNonresumable (perform fuel) w target name m =
        outOfBoundary name (perform fuel (.call w target) (bounded m)) := by
    intro fuel w m
    rw [callNonresumable_eq]
    cases perform fuel (.call w target) (bounded m) with
    | ok u t => rfl
    | error e t => cases e <;> rfl
  rw [heq, heq]
  have hcallee := hreq target hlevels (h.bounded w w'.base) htop hslots
  refine hcallee.map (fun s t hpaused => ?_) (fun u v a' b' hok => ?_) (fun e a' b' he hab => ?_)
    (fun _ => ⟨_, rfl⟩) (fun _ => ⟨_, rfl⟩) fun _ => ⟨_, rfl⟩
  · have hboundaries : t.thread.boundaries = a.thread.boundaries + 1 := hpaused.evolves.boundaries
    rw [hpaused.boundaries] at hboundaries
    exact Nat.succ_ne_zero _ hboundaries.symm
  · exact .ok ⟨rfl, h.unbounded hl hr hok.2⟩
  · cases e with
    | suspend s => exact he.elim
    | fault | overflow | exhausted => exact .error he (h.unbounded hl hr hab)

end Natives

/-! ## Native functions -/

section Natives

variable {α β : Type} {st : Place} {a b : Machine Answer Dialogue} {w w' : View}
variable {left : Place → Suspension → Machine Answer Dialogue → Prop}
variable {re : List Link → Place → EStateM.Result Unwind (Machine Answer Dialogue) β}

/-- Steps in step, and then what follows. -/
theorem Beside.seq (h : Beside D y base st a b) {x x' : M Answer Dialogue α}
    {k l : α → M Answer Dialogue β} (hx : InStep (Beside D y base st) Eq x x')
    (hk : ∀ u a b, Beside D y base st a b →
      Follows (levelled D y base β left re) κ st (k u a) (l u b)) :
    Follows (levelled D y base β left re) κ st ((x >>= k) a) ((x' >>= l) b) :=
  Follows.after hx h (fun _ _ hab => hab) fun u _ a b hab => hab.1 ▸ hk u a b hab.2

/-- Steps in step to the end. -/
theorem Beside.last (h : Beside D y base st a b) {x x' : M Answer Dialogue β}
    (hx : InStep (Beside D y base st) Eq x x') :
    Follows (levelled D y base β left re) κ st (x a) (x' b) :=
  Follows.of_paired hx h (fun _ _ hab => hab) fun _ _ _ _ hab => hab

/-- Windows that are loaded with the same values, and then what follows. -/
theorem Beside.load (h : Beside D y base st a b) (hl : st.window.base ≤ w.base)
    (hr : base ≤ w'.base) (vs : List Val) {k l : View → M Answer Dialogue β}
    (hk : ∀ a b, Beside D y base st a b → (∀ i < vs.length,
        View.slot ⟨w.base, vs.length⟩ a.thread.stack i =
          View.slot ⟨w'.base, vs.length⟩ b.thread.stack i) →
      Follows (levelled D y base β left re) κ st (k ⟨w.base, vs.length⟩ a)
        (l ⟨w'.base, vs.length⟩ b)) :
    Follows (levelled D y base β left re) κ st ((Machine.load w vs >>= k) a)
      ((Machine.load w' vs >>= l) b) := by
  have hload := load_paired (o := D.origin a b w.base w'.base) (R := Parted _) (fun _ _ hp => hp)
    w.top w'.top vs
  refine Follows.after hload (h.parted w.base w'.base) (fun _ _ hp => h.go hl hr hp)
    fun u v a' b' hwindows => ?_
  obtain ⟨rfl, rfl, hwindows⟩ := hwindows
  exact hk a' b' (h.go hl hr hwindows.toParted) hwindows.slots

variable (hreq : Answered D n) (hlevels : κ.Levels n n')

include hreq hlevels

/-- The text of a value follows. -/
theorem display_follows (h : Beside D y base st a b) (w w' : View)
    (hl : st.window.base ≤ w.base) (hr : base ≤ w'.base) (v : Val) :
    Follows (unpaused D y base String) κ st (Base.display (perform n) w v a)
      (Base.display (perform n') w' v b) := by
  have hclosed := Beside.closed D y base st
  unfold Base.display
  refine h.seq (metamethod_inStep hclosed v .toString) fun h? a b hab => ?_
  cases h? with
  | some handler =>
    refine hab.load hl hr [v] fun a b hab hslots => ?_
    have hcall := callNonresumable_follows hreq hlevels hab ⟨w.base, 1⟩ ⟨w'.base, 1⟩
      handler "__tostring" hl hr rfl hslots
    refine hcall.andThen (fun _ _ hleft => hleft) (fun _ _ herror => herror) fun _ _ a b hok => ?_
    refine hok.2.seq (result_inStep (Beside.hears D y base st) 0) fun text a b hab => ?_
    cases text with
    | str s => exact hab.last (.pure rfl)
    | _ => exact hab.last (fail_inStep _ trivial)
  | none => exact hab.last (named_inStep hclosed v)

/-- The texts of values follow. -/
theorem line_follows (h : Beside D y base st a b) (w w' : View)
    (hl : st.window.base ≤ w.base) (hr : base ≤ w'.base) (vs : List Val) :
    Follows (unpaused D y base (List String)) κ st (Base.line (perform n) w vs a)
      (Base.line (perform n') w' vs b) := by
  induction vs generalizing a b with
  | nil => exact .ok ⟨rfl, h⟩
  | cons v vs ih =>
    unfold Base.line
    refine (display_follows hreq hlevels h w w' hl hr v).andThen (fun _ _ hleft => hleft)
      (fun _ _ herror => herror) fun text text' a b hok => ?_
    obtain ⟨rfl, hab⟩ := hok
    refine (ih hab).andThen (fun _ _ hleft => hleft) (fun _ _ herror => herror)
      fun texts texts' a b hok => ?_
    obtain ⟨rfl, hab⟩ := hok
    exact .ok ⟨rfl, hab⟩

/-- The value that a message handler makes of a fault follows. -/
theorem handled_follows (h : Beside D y base st a b) (hl : st.window.base ≤ w.base)
    (hr : base ≤ w'.base) (handler v : Val) :
    Follows (unpaused D y base Val) κ st (Base.handled (perform n) w handler v a)
      (Base.handled (perform n') w' handler v b) := by
  have hclosed := Beside.closed D y base st
  unfold Base.handled
  refine h.load hl hr [v] fun a b hab hslots => ?_
  have hcall := callNonresumable_follows hreq hlevels hab ⟨w.base, 1⟩ ⟨w'.base, 1⟩
    handler "xpcall handler" hl hr rfl hslots
  rw [attempt_ended, attempt_ended]
  refine hcall.map (fun _ _ hleft => hleft) (fun _ _ a b hok => ?_) (fun e a b he hab => ?_)
    (fun _ => ⟨_, rfl⟩) (fun _ => ⟨_, rfl⟩) fun _ => ⟨_, rfl⟩
  · show Follows _ _ _ ((result 0 : M Answer Dialogue Val) a) ((result 0 : M Answer Dialogue Val) b)
    exact hok.2.last (result_inStep (Beside.hears D y base st) 0)
  · cases e with
    | suspend s => exact he.elim
    | fault c =>
      unfold ended
      dsimp only
      split
      · exact Beside.last hab (.pure rfl)
      · exact .error he hab
    | overflow | exhausted => exact .error he hab

end Natives

/-! ## Protected calls -/

section Protected

variable {k : Nat} {f : FnId} {p : Protection} {st : Place} {a b : Machine Answer Dialogue}
variable {w' : View} {handler : Val}

/-- A protected call in progress: the window `w` of its callee, the place `z` at which the callee
was last entered, and the place `st` at which the protected call was. -/
structure Guarding (n n' : Nat) (f : FnId) (p : Protection) (κ : Budget) (w : View) (z st : Place) :
    Prop where
  levels : κ.Levels n n'
  window : z.window = w
  base : st.window.base ≤ w.base
  asked : z.asked = st.asked
  evolves : st.machine.Evolves st.window.base z.machine
  coroutines : z.machine.heap.coroutines = st.machine.heap.coroutines
  function : z.machine.heap.function f = .protectedCall p

variable (hreq : Answered D n)

include hreq

/-- What surrounds a callee in its protected call. -/
theorem protected_frames {y' : Machine Answer Dialogue} (hy : y.Evolves base y')
    (hbase : base ≤ w'.base) :
    Follows.Frames (requests D n y' w'.base) (reentries D n y base)
      (fun w => ended (Base.settle (perform n) f p w handler))
      (ended (Base.settle (perform n') f p w' handler)) (Guarding n n' f p) where
  ok hjoins hok := by
    rename_i κ w z st u v a b
    have hab : Beside D y base st a b := hok.2.outward hjoins.asked hjoins.evolves hjoins.coroutines
      (hjoins.window ▸ hjoins.base) hy hbase
    exact hab.last (prependResult_answers (Beside.closed D y base st)
      (Beside.hears D y base st) _).inStep
  error hjoins he herror := by
    rename_i κ w z st e a b
    have hab : Beside D y base st a b := herror.outward hjoins.asked hjoins.evolves
      hjoins.coroutines (hjoins.window ▸ hjoins.base) hy hbase
    have hclosed := Beside.closed D y base st
    cases e with
    | suspend s => exact he.elim
    | overflow | exhausted => exact .error he hab
    | fault c =>
      unfold ended Base.settle
      dsimp only
      split
      · refine Follows.after (get_inStep hclosed) hab (fun _ _ hab => hab) fun m m' a b hm => ?_
        refine hm.2.seq (record_inStep hclosed _ _) fun _ a b hab => ?_
        cases p with
        | plain => exact hab.last (giveAll_inStep hclosed _)
        | handler =>
          have hhandled := handled_follows hreq hjoins.levels hab hjoins.base hbase handler c.value
          refine hhandled.andThen (fun _ _ hleft => hleft) (fun _ _ herror => herror)
            fun v v' a b hok => ?_
          obtain ⟨rfl, hab⟩ := hok
          exact hab.last (giveAll_inStep hclosed _)
      · exact .error he hab
  suspend hjoins hpaused := by
    rename_i κ w z st s a
    obtain ⟨x, hx⟩ := suspendWith_ok f 1 ⟨[], 0, [handler]⟩ s a
    have hevolves := hpaused.evolves.mono (show st.window.base ≤ z.window.base from
      hjoins.window ▸ hjoins.base)
    refine ⟨_, _, hx, ⟨⟨(hjoins.evolves.trans hevolves).setTrace x,
      hpaused.coroutines.trans hjoins.coroutines, hpaused.boundaries⟩, nofun⟩,
      fun hκ st' hst' => ?_⟩
    have hfunction : st'.machine.heap.function f = .protectedCall p := by
      rw [Heap.function, hst'.renewed.functions]
      exact hpaused.evolves.protectedCall hjoins.function
    refine ⟨st'.window, st', ⟨?_, { hst'.renewed with }, hst'.active⟩,
      ⟨hjoins.levels.next, rfl, Nat.le_refl _, rfl, .refl _ _, rfl, hfunction⟩, ?_⟩
    · rw [hjoins.asked]
      exact hst'.asked
    · show reenterFunction n (perform n) ⟨f, 1, ⟨[], 0, [handler]⟩⟩ s.chain (D.answer st')
        st'.window st'.machine = ended _ (perform n (.replay s.chain (D.answer st') st'.window)
          st'.machine)
      unfold reenterFunction
      dsimp only
      rw [functionAt_bind, hfunction, ← attempt_ended]
      rfl
  exhaustedLeft _ _ := ⟨_, rfl⟩
  exhaustedRight _ := ⟨_, rfl⟩
  misplaced _ := ⟨_, rfl⟩

variable (hlevels : κ.Levels n n')

include hlevels

/-- **Protected calls with pauses.** A protected call follows itself. -/
theorem protectedCall_follows (h : Handed D y base st k a b)
    (hfunction : st.machine.heap.function f = .protectedCall p) :
    Follows (reentries D n y base) κ st
      (Base.protectedCall (perform n) f p ⟨st.window.base, k⟩ a)
      (Base.protectedCall (perform n') f p ⟨base, k⟩ b) := by
  have hclosed := Handed.closed D y base st k
  have hshares : Shares (Handed D y base st k) ⟨st.window.base, k⟩ ⟨base, k⟩ := Handed.shares
  have hcall : ∀ (handler target : Val) (first : Nat) {a b : Machine Answer Dialogue},
      Handed D y base st k a b → Follows (reentries D n y base) κ st
        (ended (Base.settle (perform n) f p (View.child ⟨st.window.base, k⟩ first) handler)
          (perform n (.call (View.child ⟨st.window.base, k⟩ first) target) a))
        (ended (Base.settle (perform n') f p (View.child ⟨base, k⟩ first) handler)
          (perform n' (.call (View.child ⟨base, k⟩ first) target) b)) := by
    intro handler target first a b hab
    have hle : ∀ base, base ≤ (View.child ⟨base, k⟩ first).base :=
      fun base => Nat.le_add_right base first
    have hslots : ∀ i < (View.child ⟨st.window.base, k⟩ first).top,
        (View.child ⟨st.window.base, k⟩ first).slot a.thread.stack i =
          (View.child ⟨base, k⟩ first).slot b.thread.stack i := by
      intro i hi
      have hi : i < k - first := hi
      have hslot := hab.slots (first + i) (by omega)
      rw [← Nat.add_assoc, ← Nat.add_assoc] at hslot
      exact hslot
    have hcallee := hreq target hlevels (hab.toBeside.restart (View.child ⟨st.window.base, k⟩ first)
      (View.child ⟨base, k⟩ first).base) rfl hslots
    have hjoins : Guarding n n' f p κ (View.child ⟨st.window.base, k⟩ first)
        ⟨View.child ⟨st.window.base, k⟩ first, a, st.asked⟩ st :=
      ⟨hlevels, rfl, hle _, rfl, hab.left, hab.coroutines, hab.left.protectedCall hfunction⟩
    exact hcallee.through (protected_frames hreq hab.right (hle base)) hjoins
  unfold Base.protectedCall
  refine Follows.after (Args.checkAny_inStep hclosed hshares 1 p.name) h
    (fun _ _ hab => hab.toBeside) fun target target' a b htarget => ?_
  obtain ⟨rfl, hab⟩ := htarget
  cases p with
  | plain =>
    show Follows _ _ _ ((attempt _ >>= Base.settle _ _ _ _ _ : M Answer Dialogue Unit) a)
      ((attempt _ >>= Base.settle _ _ _ _ _ : M Answer Dialogue Unit) b)
    rw [attempt_ended, attempt_ended]
    exact hcall .nil target 1 hab
  | handler =>
    refine Follows.after (Args.checkAny_inStep hclosed hshares 2 Protection.handler.name) hab
      (fun _ _ hab => hab.toBeside) fun handler handler' a b hhandler => ?_
    obtain ⟨rfl, hab⟩ := hhandler
    show Follows _ _ _ ((attempt _ >>= Base.settle _ _ _ _ _ : M Answer Dialogue Unit) a)
      ((attempt _ >>= Base.settle _ _ _ _ _ : M Answer Dialogue Unit) b)
    rw [attempt_ended, attempt_ended]
    exact hcall handler target 2 hab

end Protected

/-! ## Functions -/

/-- A native function that has nothing to do with coroutines follows itself. -/
theorem builtin_follows (hreq : Answered D n) (hlevels : κ.Levels n n') {c : Builtin} {k : Nat}
    {st : Place} {a b : Machine Answer Dialogue} (h : Handed D y base st k a b) (hc : c.Quiet)
    (hprovides : ∀ i, c.arity.Provides i → i < k) :
    Follows (reentries D n y base) κ st (runBuiltin (perform n) c ⟨st.window.base, k⟩ a)
      (runBuiltin (perform n') c ⟨base, k⟩ b) := by
  have hclosed := Handed.closed D y base st k
  have hshares : Shares (Handed D y base st k) ⟨st.window.base, k⟩ ⟨base, k⟩ := Handed.shares
  have hbeside := Beside.closed D y base st
  rcases hc with hplain | rfl | rfl
  · have hsteps := (runBuiltin_answers (perform n) (perform n') hclosed hshares hplain
      fun i hi a b hab => hab.slots i (hprovides i hi)).inStep
    exact Follows.of_paired hsteps h (fun _ _ hab => hab.toBeside)
      fun _ _ _ _ hab => ⟨hab.1, hab.2.toBeside⟩
  · show Follows _ _ _ (Base.tostring _ _ a) (Base.tostring _ _ b)
    unfold Base.tostring
    refine Follows.after (Args.checkAny_inStep hclosed hshares 1 "tostring") h
      (fun _ _ hab => hab.toBeside) fun v v' a b hv => ?_
    obtain ⟨rfl, hab⟩ := hv
    have htext := display_follows hreq hlevels hab.toBeside (View.child ⟨st.window.base, k⟩ 1)
      (View.child ⟨base, k⟩ 1) (Nat.le_add_right _ _) (Nat.le_add_right _ _) v
    refine htext.andThen (fun _ _ hleft => hleft) (fun _ _ herror => herror)
      fun text text' a b hok => ?_
    obtain ⟨rfl, hab⟩ := hok
    exact hab.last (give_inStep hbeside _)
  · show Follows _ _ _ (Base.print _ _ a) (Base.print _ _ b)
    unfold Base.print
    refine Follows.after (valuesFrom_inStep hclosed hshares 0) h (fun _ _ hab => hab.toBeside)
      fun vs vs' a b hvs => ?_
    obtain ⟨rfl, hab⟩ := hvs
    have htexts := line_follows hreq hlevels hab.toBeside
      (View.child ⟨st.window.base, k⟩ vs.length) (View.child ⟨base, k⟩ vs.length)
      (Nat.le_add_right _ _) (Nat.le_add_right _ _) vs
    refine htexts.andThen (fun _ _ hleft => hleft) (fun _ _ herror => herror)
      fun texts texts' a b hok => ?_
    obtain ⟨rfl, hab⟩ := hok
    exact hab.last ((emit_inStep hbeside _).seq fun _ => giveAll_inStep hbeside [])

/-- **Functions with pauses.** A function that does not yield itself follows itself. -/
theorem function_follows (hreq : Answered D n) (hlevels : κ.Levels n n') (hfuels : κ.Fuels n n n')
    {f : FnId} {base' k : Nat} {asked : List (List Val)} {a b : Machine Answer Dialogue}
    (h : Handed D b base ⟨⟨base', k⟩, a, asked⟩ k a b)
    (hprovides : ∀ i, (a.heap.function f).arity.Provides i → i < k)
    (hyield : a.heap.function f ≠ .builtin .yield) :
    Follows (reentries D n b base) κ ⟨⟨base', k⟩, a, asked⟩
      (runFunction n (perform n) f ⟨base', k⟩ a) (runFunction n' (perform n') f ⟨base, k⟩ b) := by
  have hsanctioned : Sanctioned D.adders (a.heap.function f) (b.heap.function f) := h.covers f
  generalize hc : a.heap.function f = c at hsanctioned hprovides hyield
  generalize hd : b.heap.function f = d at hsanctioned
  have hbody? : ∀ (fuel : Nat) {m : Machine Answer Dialogue} {e : Callable Answer},
      m.heap.function f = e → (m.heap.function f).body? fuel (perform fuel) f =
        e.body? fuel (perform fuel) f := fun fuel m e he => by rw [he]
  cases hsanctioned with
  | closure horderly cells cells' =>
    rename_i proto
    refine body_follows h (hbody? n hc) (hbody? n hc) (hbody? n' hd) fun hindex hslots hab => ?_
    rw [Proto.layout_slots horderly.check] at hslots hab
    exact Interpreter.run_follows hreq f horderly hfuels hlevels hindex hslots hab
  | routine hquiet =>
    refine body_follows h (hbody? n hc) (hbody? n hc) (hbody? n' hd) fun hindex hslots hab => ?_
    exact Routine.run_follows hreq hquiet hfuels hlevels hindex hab
  | protection p =>
    have hrun : ∀ (fuel : Nat) (w : View) {m : Machine Answer Dialogue},
        m.heap.function f = .protectedCall p → runFunction fuel (perform fuel) f w m =
          Base.protectedCall (perform fuel) f p w m := by
      intro fuel w m hm
      unfold runFunction
      rw [functionAt_bind, hm]
    rw [hrun n _ hc, hrun n' _ hd]
    exact protectedCall_follows hreq hlevels h hc
  | builtin hquiet =>
    rename_i c
    have hrun : ∀ (fuel : Nat) (w : View) {m : Machine Answer Dialogue},
        m.heap.function f = .builtin c → runFunction fuel (perform fuel) f w m =
          runBuiltin (perform fuel) c w m := by
      intro fuel w m hm
      unfold runFunction
      rw [functionAt_bind, hm]
    rw [hrun n _ hc, hrun n' _ hd]
    exact builtin_follows hreq hlevels h hquiet hprovides
  | yield => exact (hyield rfl).elim

end ScriptCore
