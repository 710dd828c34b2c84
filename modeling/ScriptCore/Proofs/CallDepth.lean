import ScriptCore.Proofs.Finishing
import ScriptCore.Proofs.Fuel

/-!
# The call depth bounds a run

Bodies that make no tail call and jump only forward come to their end if their calls do
(`loop_rests`), and a call is one deeper than the function that makes it. So requests come to an end
at the limit of the depth, where nothing is entered, then one below it, and so on down to a call
from outside: `perform_endsAt` is the induction, and the fuel that it takes is the room up to the
limit and the length of a body. What the heap holds has no part in it: a look-up follows as many
handlers as the limits let it, and to resume a coroutine enters each of its frames anew
(`bounded_calls_end`).
-/

namespace ScriptCore

open Machine

/-! ## Bodies -/

/-- A checked body that makes no tail call and jumps only forward. -/
structure Proto.Forward (p : Proto) : Prop where
  check : p.check = .ok ()
  plain : ∀ (pc : Nat) func args, p.code[pc]? ≠ some (.tailCall func args)
  onward : ∀ (pc : Nat) (op : Op) dest, p.code[pc]? = some op → op.JumpsTo dest → pc < dest

namespace Proto

mutual

/-- The length of the longest code among a body and the bodies nested in it. -/
def longest : Proto → Nat
  | ⟨_, _, _, _, _, _, code, children, _⟩ => max code.size (longestOf children)

/-- The length of the longest code among some bodies and those nested in them. -/
def longestOf : List Proto → Nat
  | [] => 0
  | p :: ps => max (longest p) (longestOf ps)

end

variable {p q : Proto} {ps : List Proto}

theorem longest_eq (p : Proto) : p.longest = max p.code.size (longestOf p.children) := by
  cases p
  rw [longest]

theorem longest_le_of_mem (h : p ∈ ps) : p.longest ≤ longestOf ps := by
  induction ps with
  | nil => cases h
  | cons q ps ih =>
    rw [longestOf]
    rcases List.mem_cons.1 h with rfl | h
    · exact Nat.le_max_left _ _
    · exact Nat.le_trans (ih h) (Nat.le_max_right _ _)

theorem Nested.longest_le (h : p.Nested q) : q.longest ≤ p.longest := by
  induction h with
  | self => exact Nat.le_refl _
  | @child q r _ hr ih =>
    have hq := longest_eq q
    have := longest_le_of_mem hr
    omega

theorem Nested.size_le (h : p.Nested q) (hp : p ∈ ps) : q.code.size ≤ longestOf ps := by
  have hq := longest_eq q
  have hnested := h.longest_le
  have hmem := longest_le_of_mem hp
  omega

/-- The register behind one that an operation of a checked body calls is there. -/
theorem next_of_check {pc : Nat} {op : Op} (h : p.check = .ok ()) (hop : p.code[pc]? = some op)
    {r : Reg} (hr : op.Calls r) : Reg.next? r ≠ none := by
  have hafter : ∀ {count : Count}, p.checkSpanAfter pc r count = .ok () → Reg.next? r ≠ none := by
    intro count hspan hnext
    rw [checkSpanAfter, hnext] at hspan
    cases hspan
  have hcheck := checkOp_of_check h hop
  cases op with
  | call func args results =>
    obtain rfl : func = r := hr
    exact hafter (check_seq (check_seq hcheck).2).1
  | tailCall func args =>
    obtain rfl : func = r := hr
    exact hafter (check_seq hcheck).2
  | _ => exact hr.elim

end Proto

/-- Functions that are built from given bodies. -/
def Scope.builtFrom (protos : List Proto) : Scope Empty where
  admits c d := c.BuiltFrom protos ∧ d.BuiltFrom protos
  kept h hc hd := ⟨hc.builtFrom h.1, hd.builtFrom h.2⟩

variable {protos : List Proto} {limit depth : Nat}

/-- The origin of a run against itself, with functions of given bodies. -/
def Origin.builtFrom (protos : List Proto) (m : Machine Empty PUnit) (base : Nat) :
    Origin Empty PUnit :=
  { Origin.self m base with scope := .builtFrom protos }

section Origin

variable {m t : Machine Empty PUnit} {base : Nat}

theorem Parted.atDepth (h : Parted (.builtFrom protos m base) t t)
    (hm : m.AtDepth protos limit depth) : t.AtDepth protos limit depth :=
  ⟨fun f => (h.covers f).1, h.left.config ▸ hm.limit, h.left.depth ▸ hm.depth⟩

theorem Machine.AtDepth.parted (h : m.AtDepth protos limit depth) (base : Nat) :
    Parted (.builtFrom protos m base) m m :=
  { Parted.self m base with covers := fun f => ⟨h.functions f, h.functions f⟩ }

theorem Machine.AtDepth.twin {s : Active Empty PUnit} (h : s.machine.AtDepth protos limit depth) :
    Twin (.builtFrom protos s.machine s.frame.view.base) (fun _ => True) s.frame s s :=
  { h.parted s.frame.view.base with
    leftFrame := rfl, rightFrame := rfl, regs := fun _ _ => rfl, bare := fun _ _ => False.elim }

theorem Corresponds.builtFrom {p : Proto} {cells : Array CellId}
    (hp : (Callable.closure p cells).BuiltFrom protos) (pc : Nat) (op : Op) :
    Corresponds (.builtFrom protos m base) p p pc pc op op := by
  have hnests : (Scope.builtFrom protos).Nests p p :=
    Scope.nests_self fun _ hc cells => ⟨hp.child hc cells, hp.child hc cells⟩
  exact .refl ⟨fun _ => rfl, fun _ => id⟩ hnests pc op

end Origin

namespace Body

variable {α : Type} {G : Machine Empty PUnit → Prop}

/-- A step of the machine below a frame. -/
theorem lift_finishes {x : M Empty PUnit α} {Q : α → Machine Empty PUnit → Prop}
    (hx : Finishes G x Q) :
    Finishes (fun s : Active Empty PUnit => G s.machine) (lift x) fun a s => Q a s.machine := by
  intro s hs
  have h := hx s.machine hs
  simp only [lift]
  cases hxs : x s.machine with
  | ok a m =>
    rw [hxs] at h
    exact h
  | error e m =>
    rw [hxs] at h
    exact h

theorem setSlot_stays (i : Nat) (v : Val) :
    Stays (fun s => s.machine.AtDepth protos limit depth) (setSlot i v : Body Empty PUnit Unit) :=
  Finishes.seq (fun _ hs => hs) fun f =>
    lift_finishes (onStack_stays fun s => ((), f.view.put s i (.value v)))

theorem setSlots_stays (i : Nat) (vs : List Val) :
    Stays (fun s => s.machine.AtDepth protos limit depth) (setSlots i vs : Body Empty PUnit Unit) := by
  induction vs generalizing i with
  | nil => exact .pure fun _ hs => hs
  | cons v vs ih => exact (setSlot_stays i v).seq fun _ => ih (i + 1)

theorem setTop_stays (n : Nat) :
    Stays (fun s => s.machine.AtDepth protos limit depth) (setTop n : Body Empty PUnit Unit) :=
  Finishes.seq (fun _ hs => hs) fun _ => (lift_finishes (onStack_stays _)).seq fun _ _ hs => hs

end Body

theorem Machine.orViolate_stays {α : Type} {G : Machine Empty PUnit → Prop}
    (f : Machine Empty PUnit → Except Violation α) :
    Stays G (do orViolate (f (← get)) : M Empty PUnit α) := by
  refine Finishes.seq (fun _ hm => hm) fun m => ?_
  cases f m with
  | ok a => exact .pure fun _ hm => hm
  | error v => exact fail_finishes _

namespace Interpreter

variable {f : FnId} {p : Proto} {cells : Array CellId} {pc : Nat} {op : Op}

/-- The outcome of an operation is stored, or it is a fault. -/
theorem complete_stays (p : Proto) (pc : Nat) :
    Stays (fun s => s.machine.AtDepth protos limit depth)
      (complete p pc : Body Empty PUnit Unit) := by
  have hvalue : ∀ (post : Val → Val) (dst : Reg), Stays
      (fun s => s.machine.AtDepth protos limit depth)
      (do Body.setSlot dst.toNat (post (← Body.lift (result 0))) : Body Empty PUnit Unit) :=
    fun post dst => (Body.lift_finishes (orViolate_stays _)).seq fun v => Body.setSlot_stays _ _
  have hviolation : ∀ v, Stays (fun s => s.machine.AtDepth protos limit depth)
      (Body.lift (violate v) : Body Empty PUnit Unit) :=
    fun v => Body.lift_finishes (fail_finishes _)
  have hvalues : ∀ k : List Val → Body Empty PUnit Unit,
      (∀ values, Stays (fun s => s.machine.AtDepth protos limit depth) (k values)) →
      Stays (fun s => s.machine.AtDepth protos limit depth)
        (do k (← Body.lift resultList) : Body Empty PUnit Unit) :=
    fun k hk => (Body.lift_finishes (orViolate_stays _)).seq hk
  unfold complete
  cases p.code[pc]? with
  | none => exact hviolation _
  | some op =>
    cases op with
    | call func args results =>
      cases results with
      | fixed n =>
        dsimp only
        split
        · exact hvalues _ fun values => Body.setSlots_stays _ _
        · exact .pure fun _ hs => hs
      | «open» =>
        exact hvalues _ fun values => (Body.setSlots_stays _ _).seq fun _ => Body.setTop_stays _
    | binary op dst lhs rhs => exact hvalue op.finish dst
    | unary op dst src =>
      cases op with
      | not => exact hviolation _
      | neg | bnot | len => exact hvalue id dst
    | index dst object key => exact hvalue id dst
    | getGlobal dst name => exact hvalue id dst
    | newIndex | setGlobal => exact .pure fun _ hs => hs
    | _ => exact hviolation _

theorem reifyParams_stays (p : Proto) (slot n : Nat) :
    Stays (fun s => s.machine.AtDepth protos limit depth)
      (reifyParams p slot n : Body Empty PUnit Unit) := by
  have hreify : ∀ v i, Stays (AtDepth protos limit depth) (reify v i : M Empty PUnit CellId) := by
    intro v i
    refine (read_stays _).seq fun x => Finishes.seq (.of_ok fun m hm => ⟨_, _, rfl, ?_⟩) fun c =>
      (onStack_stays _).seq fun _ => .pure fun _ hm => hm
    exact hm.congr rfl rfl rfl
  induction n generalizing slot with
  | zero => exact .pure fun _ hs => hs
  | succ n ih =>
    unfold reifyParams
    split
    · exact Finishes.seq (fun _ hs => hs) fun _ => (Body.lift_finishes (hreify _ _)).seq fun _ => ih _
    · exact ih _

/-- What an operation of a forward body does before its call comes to an end. -/
theorem prepare_ends (hp : (Callable.closure p cells).BuiltFrom protos) (hforward : p.Forward)
    (hop : p.code[pc]? = some op) (f : FnId) :
    Finishes (fun s => s.machine.AtDepth protos limit depth)
      (prepare f p pc op : Body Empty PUnit Turn) fun turn s =>
        s.machine.AtDepth protos limit depth ∧ match turn with
          | .goto next => op.Next pc next
          | .done => s.machine.thread.results.Settled
          | .ask .. => op.Next pc (pc + 1) := by
  intro s hs
  have hend : SameEnd (Apart (.builtFrom protos s.machine s.frame.view.base))
      (Prepared (.builtFrom protos s.machine s.frame.view.base) (fun _ => True) s.frame pc op)
      (prepare f p pc op s) (prepare f p pc op s) :=
    prepare_paired f (.builtFrom hp pc op) (fun _ _ => trivial) s s hs.twin
  cases hx : prepare f p pc op s with
  | ok turn t =>
    rw [hx] at hend
    cases turn with
    | goto next =>
      obtain ⟨-, hnext, g, -, -, -, -, hg⟩ := hend
      exact ⟨hg.toParted.atDepth hs, hnext⟩
    | done =>
      obtain ⟨htwin, -, hsettled⟩ := hend
      refine ⟨htwin.toParted.atDepth hs, hsettled ?_⟩
      rintro func args rfl
      exact hforward.plain pc func args hop
    | ask w target =>
      obtain ⟨-, hmay, htwin, -⟩ := hend
      exact ⟨htwin.toParted.atDepth hs, Op.next_of_maySuspend hmay pc⟩
  | error e t =>
    rw [hx] at hend
    have ht : t.machine.AtDepth protos limit depth := Parted.atDepth hend.2.2 hs
    rcases prepare_faults f p pc op s e t hx with ⟨⟨r, hr, hnone⟩, -⟩ | ⟨c, rfl, -⟩
    · exact (Proto.next_of_check hforward.check hop hr hnone).elim
    · exact ⟨trivial, ht⟩

/-- Whence a body goes on after an operation, or with what it ends. -/
def Proceeds (protos : List Proto) (limit depth : Nat) (op : Op) (pc : Nat) (next : Next)
    (s : Active Empty PUnit) : Prop :=
  s.machine.AtDepth protos limit depth ∧ match next with
    | .goto next => op.Next pc next
    | .done => s.machine.thread.results.Settled

section Requests

variable {P : Perform Empty PUnit} (hP : EndsAt protos limit depth P)

include hP

theorem execute_ends (hp : (Callable.closure p cells).BuiltFrom protos) (hforward : p.Forward)
    (hop : p.code[pc]? = some op) (f : FnId) :
    Finishes (fun s => s.machine.AtDepth protos limit depth) (execute P f p pc op)
      (Proceeds protos limit depth op pc) := by
  rw [execute_eq P f hop]
  refine (prepare_ends hp hforward hop f).bind fun turn s hturn => ?_
  cases turn with
  | goto next => exact hturn
  | done => exact hturn
  | ask w target =>
    refine Ended.bind (Body.lift_finishes (hP (.call w target)) s hturn.1) fun _ t ht => ?_
    refine (complete_stays p pc t ht.toAtDepth).bind fun _ u hu => ?_
    exact ⟨hu, hturn.2⟩

/-- **A forward body comes to its end.** Every operation leads further, so the fuel for the rest of
the code is enough. -/
theorem loop_rests (hp : (Callable.closure p cells).BuiltFrom protos) (hforward : p.Forward)
    (f : FnId) {fuel pc : Nat} (hpos : 0 < fuel) (hfuel : p.code.size < pc + fuel) :
    Finishes (fun s => s.machine.AtDepth protos limit depth) (loop P f p fuel pc) fun _ s =>
      s.machine.AtRest protos limit depth := by
  induction fuel generalizing pc with
  | zero => exact (Nat.lt_irrefl 0 hpos).elim
  | succ fuel ih =>
    unfold loop
    cases hop : p.code[pc]? with
    | none => exact Body.lift_finishes (giveAll_rests [])
    | some op =>
      have hpc : pc < p.code.size := (Array.getElem?_eq_some_iff.1 hop).1
      refine (execute_ends hP hp hforward hop f).bind fun next s hnext => ?_
      cases next with
      | done => exact ⟨hnext.1, hnext.2⟩
      | goto next =>
        have hlt : pc < next := by
          rcases Op.next_cases hnext.2 with rfl | hjump
          · exact Nat.lt_succ_self pc
          · exact hforward.onward pc op next hop hjump
        exact ih (by omega) (by omega) s hnext.1

theorem run_rests (hp : (Callable.closure p cells).BuiltFrom protos) (hforward : p.Forward)
    (f : FnId) {fuel : Nat} (hfuel : p.code.size < fuel) :
    Finishes (fun s => s.machine.AtDepth protos limit depth) (Interpreter.run fuel P f p) fun _ s =>
      s.machine.AtRest protos limit depth := by
  have hloop : ∀ pc, Finishes (fun s => s.machine.AtDepth protos limit depth) (loop P f p fuel pc)
      fun _ s => s.machine.AtRest protos limit depth :=
    fun pc => loop_rests hP hp hforward f (by omega) (by omega)
  refine Finishes.seq (fun _ hs => hs) fun frame => Finishes.ite ?_ ?_
  · exact (reifyParams_stays p 0 p.params).seq fun _ => hloop 0
  · exact (complete_stays p _).seq fun _ => hloop _

end Requests

end Interpreter

/-! ## Functions -/

section Frames

variable {f : FnId} {body : Body Empty PUnit Unit}
  (hbody : Finishes (fun s => s.machine.AtDepth protos limit depth) body fun _ s =>
    s.machine.AtRest protos limit depth)

theorem suspendFrame_ends {Q : Unit → Machine Empty PUnit → Prop} (f : FnId) (frame : Frame)
    (s : Suspension) {m : Machine Empty PUnit} (hm : m.AtDepth protos limit depth) :
    Ended (AtDepth protos limit depth) Q (suspendFrame f frame s m) := by
  obtain ⟨x, hx⟩ := suspendFrame_ok f frame s m
  rw [hx]
  exact ⟨trivial, hm.congr rfl rfl rfl⟩

include hbody

theorem runBody_rests (frame : Frame) :
    Finishes (AtDepth protos limit depth) (runBody f body frame) fun _ =>
      AtRest protos limit depth := by
  intro m hm
  have h := hbody ⟨frame, m⟩ hm
  rw [runBody_eq]
  cases hr : body ⟨frame, m⟩ with
  | ok u s =>
    rw [hr] at h
    exact h
  | error e s =>
    rw [hr] at h
    cases e with
    | suspend c => exact suspendFrame_ends f s.frame c h.2
    | fault c => exact h
    | overflow | exhausted => exact h.1.elim

theorem enterBody_rests (layout : Layout) (args : View) :
    Finishes (AtDepth protos limit depth) (enterBody f layout body args) fun _ =>
      AtRest protos limit depth := by
  refine Finishes.seq (.of_ok fun m hm => ?_) fun frame => runBody_rests hbody frame
  obtain ⟨x, hx⟩ := openFrame_ok layout args m
  exact ⟨_, _, hx, hm.congr rfl rfl rfl⟩

theorem reenterBody_rests {P : Perform Empty PUnit} (hP : EndsAt protos limit depth P)
    (name : String) (layout : Layout) (w : View) (index : Nat) (saved : Saved) (inner : List Link)
    (values : List Val) :
    Finishes (AtDepth protos limit depth)
      (reenterBody P f name layout body w index saved inner values) fun _ =>
        AtRest protos limit depth := by
  intro m hm
  by_cases hindex : index = 0
  · subst hindex
    rw [reenterBody_zero]
    exact ⟨trivial, hm⟩
  · rw [reenterBody_eq _ _ _ _ _ _ hindex]
    obtain ⟨s, x, -, -, hrun⟩ := reopen_ok (α := Unit) layout w index saved m
    rw [hrun]
    refine attempt_ends (hP _ _ (hm.congr rfl rfl rfl)) (fun _ t ht => ?_) fun e t he ht => ?_
    · exact runBody_rests hbody _ t ht.toAtDepth
    · cases e with
      | suspend c => exact suspendFrame_ends f _ c ht
      | fault c => exact ⟨trivial, ht⟩
      | overflow | exhausted => exact he.elim

end Frames

/-- All bodies that functions are made of run forward. -/
def RunForward (protos : List Proto) : Prop := ∀ p ∈ protos, ∀ q, p.Nested q → q.Forward

section Functions

variable {P : Perform Empty PUnit} {fuel : Nat} (hprotos : RunForward protos)
  (hfuel : Proto.longestOf protos < fuel) (hP : EndsAt protos limit depth P)

include hprotos hfuel hP

/-- What a closure over one of the given bodies runs. -/
theorem built_run_rests (f : FnId) {p : Proto} {cells : Array CellId}
    (hp : (Callable.closure p cells).BuiltFrom protos) :
    Finishes (fun s => s.machine.AtDepth protos limit depth) (Interpreter.run fuel P f p) fun _ s =>
      s.machine.AtRest protos limit depth := by
  obtain ⟨q, hq, hnested⟩ := hp
  exact Interpreter.run_rests hP (show (Callable.closure p cells).BuiltFrom protos from
    ⟨q, hq, hnested⟩) (hprotos q hq p hnested) f (Nat.lt_of_le_of_lt (hnested.size_le hq) hfuel)

theorem runFunction_rests (f : FnId) (args : View) :
    Finishes (AtDepth protos limit depth) (runFunction fuel P f args) fun _ =>
      AtRest protos limit depth := by
  intro m hm
  have hbuilt := hm.functions f
  unfold runFunction
  rw [functionAt_bind]
  cases hc : m.heap.function f with
  | closure p cells =>
    rw [hc] at hbuilt
    exact enterBody_rests (built_run_rests hprotos hfuel hP f hbuilt) _ args m hm
  | builtin b =>
    rw [hc] at hbuilt
    exact runBuiltin_rests hP hbuilt args m hm
  | protectedCall p => exact protectedCall_rests hP f p args m hm
  | wrapped co => exact callWrapped_rests hP co args m hm
  | routine r => rw [hc] at hbuilt; exact hbuilt.elim
  | host h => exact h.elim

theorem reenterFunction_rests (link : Link) (inner : List Link) (values : List Val) (w : View) :
    Finishes (AtDepth protos limit depth) (reenterFunction fuel P link inner values w) fun _ =>
      AtRest protos limit depth := by
  obtain ⟨f, index, saved⟩ := link
  intro m hm
  have hbuilt := hm.functions f
  unfold reenterFunction
  dsimp only
  rw [functionAt_bind]
  cases hc : m.heap.function f with
  | closure p cells =>
    rw [hc] at hbuilt
    exact reenterBody_rests (built_run_rests hprotos hfuel hP _ hbuilt) hP _ _ w _ _ inner values m hm
  | protectedCall p => exact resumeProtected_rests hP _ p w _ _ inner values m hm
  | builtin | wrapped => exact ⟨trivial, hm⟩
  | routine r => rw [hc] at hbuilt; exact hbuilt.elim
  | host h => exact h.elim

end Functions

/-! ## Calls and replays -/

/-- Functions come to an end, as long as there is room for them. -/
structure RunsAt (protos : List Proto) (limit depth : Nat) (r : Runner Empty PUnit) : Prop where
  run : depth < limit → ∀ f args, Finishes (AtDepth protos limit (depth + 1)) (r.run f args) fun _ =>
    AtRest protos limit (depth + 1)
  rerun : depth < limit → ∀ link inner values w,
    Finishes (AtDepth protos limit (depth + 1)) (r.rerun link inner values w) fun _ =>
      AtRest protos limit (depth + 1)

/-- A call is one deeper, unless the depth is at its limit. -/
theorem counted_rests {x : M Empty PUnit Unit}
    (hx : depth < limit → Finishes (AtDepth protos limit (depth + 1)) x fun _ =>
      AtRest protos limit (depth + 1)) :
    Finishes (AtDepth protos limit depth) (do enter; ensuring x leave) fun _ =>
      AtRest protos limit depth := by
  have hleave : ∀ t : Machine Empty PUnit, t.AtDepth protos limit (depth + 1) →
      (leave t).AtDepth protos limit depth := fun t ht =>
    ⟨ht.functions, ht.limit, congrArg (· - 1) ht.depth⟩
  intro m hm
  rw [Regime.counted_eq]
  split
  · exact ⟨trivial, hm⟩
  · rename_i hroom
    rw [hm.limit, hm.depth] at hroom
    have h := hx (by omega) (entered m) ⟨hm.functions, hm.limit, congrArg (· + 1) hm.depth⟩
    unfold ensuring
    cases hr : x (entered m) with
    | ok u t =>
      rw [hr] at h
      exact ⟨hleave t h.toAtDepth, h.settled⟩
    | error e t =>
      rw [hr] at h
      exact ⟨h.1, hleave t h.2⟩

theorem resolve_stays (w : View) (target : Val) (chain : Nat) :
    Stays (AtDepth protos limit depth) (resolve w target chain : M Empty PUnit (FnId × View)) := by
  induction chain generalizing w target with
  | zero =>
    unfold resolve
    split
    · exact .pure fun _ hm => hm
    · refine (metamethod_stays _ _).seq fun h? => ?_
      cases h? <;> exact fail_finishes _
  | succ chain ih =>
    unfold resolve
    split
    · exact .pure fun _ hm => hm
    · refine (metamethod_stays _ _).seq fun h? => ?_
      cases h? with
      | none => exact fail_finishes _
      | some h => exact (record_stays _).seq fun _ => (onStack_stays _).seq fun w => ih w h

section Requests

variable {r : Runner Empty PUnit} (hr : RunsAt protos limit depth r)

include hr

theorem invoke_rests (w : View) (target : Val) :
    Finishes (AtDepth protos limit depth) (invoke r w target) fun _ =>
      AtRest protos limit depth := by
  refine (read_stays _).seq fun config => (resolve_stays w target _).seq fun found =>
    (read_stays _).seq fun callable => ?_
  refine Finishes.seq (.of_ok fun m hm => ?_) fun args => Finishes.seq (fun _ hm => hm) fun m =>
    (record_stays _).seq fun _ => counted_rests fun hroom => hr.run hroom found.1 args
  obtain ⟨k, s, x, hshape⟩ := shape_ok callable.arity found.2 m
  exact ⟨_, _, hshape, hm.congr rfl rfl rfl⟩

theorem reenter_rests (link : Link) (inner : List Link) (values : List Val) (w : View) :
    Finishes (AtDepth protos limit depth) (reenter r link inner values w) fun _ =>
      AtRest protos limit depth :=
  Finishes.seq (fun _ hm => hm) fun _ => (record_stays _).seq fun _ =>
    counted_rests fun hroom => hr.rerun hroom link inner values w

/-- No function leaves a tail call, so there is nothing to do after it. -/
theorem step_rests (fuel : Nat) (request : Request) :
    Finishes (AtDepth protos limit depth) (step r (fuel + 1) request) fun _ =>
      AtRest protos limit depth := by
  have hdrain : ∀ (w : View) (t : Machine Empty PUnit), t.AtRest protos limit depth →
      Ended (AtDepth protos limit depth) (fun _ => AtRest protos limit depth)
        (drain r w (fuel + 1) t) := by
    intro w t ht
    rw [drain_idle r ht.settled]
    exact ht
  cases request with
  | call w target => exact (invoke_rests hr w target).bind fun _ t ht => hdrain w t ht
  | replay links values w =>
    cases links with
    | nil => exact giveAll_rests values
    | cons link inner =>
      exact (reenter_rests hr link inner values w).bind fun _ t ht => hdrain w t ht

end Requests

/-- **Requests come to an end.** The fuel for this is the room up to the limit, and then enough for
the longest body and for the look at the channel. -/
theorem perform_endsAt (hprotos : RunForward protos) {n : Nat}
    (hn : limit - depth + Proto.longestOf protos + 2 ≤ n) :
    EndsAt protos limit depth (perform n) := by
  induction n generalizing depth with
  | zero => omega
  | succ n ih =>
    obtain ⟨k, rfl⟩ : ∃ k, n = k + 1 := ⟨n - 1, by omega⟩
    -- Requests of a function that was entered are one deeper, which pays for the fuel.
    have hdeeper : depth < limit → EndsAt protos limit (depth + 1) (perform (k + 1)) :=
      fun hroom => ih (by omega)
    refine fun request => step_rests ⟨fun hroom => ?_, fun hroom => ?_⟩ k request
    · exact runFunction_rests hprotos (by omega) (hdeeper hroom)
    · exact reenterFunction_rests hprotos (by omega) (hdeeper hroom)

/-! ## Calls from outside -/

/-- Results of a call from outside, or a fault. -/
def Replied {α : Type} : EStateM.Result Unwind (Machine Empty PUnit) α → Prop
  | .ok _ _ | .error (.fault _) _ => True
  | .error _ _ => False

theorem callFromOutside_replied {P : Perform Empty PUnit} (hP : EndsAt protos limit depth P)
    (target : Val) (args : List Val) {m : Machine Empty PUnit} (hm : m.AtDepth protos limit depth) :
    Replied (callFromOutside P target args m) := by
  have hcall := callWith_rests hP .root target args m hm
  unfold callFromOutside
  rw [attempt_bind]
  cases hr : callWith P .root target args m with
  | ok u t =>
    rw [hr] at hcall
    obtain ⟨t', ht'⟩ := takeResults_ok hcall.settled
    dsimp only
    rw [ht']
    exact trivial
  | error e t =>
    rw [hr] at hcall
    cases e with
    | suspend s => exact trivial
    | fault f => exact trivial
    | overflow | exhausted => exact hcall.1.elim

/-- **The call depth bounds a run.** Where all functions come from the standard library or are
closures over given bodies, which are checked, make no tail call and jump only forward, every call
from outside ends with values or a fault, whatever the heap holds and however long chains of
handlers may get. The limit of the depth and the length of the bodies alone bound the fuel that
makes no difference any more. -/
theorem bounded_calls_end (protos : List Proto) (limit : Nat) (hprotos : RunForward protos)
    (m : Machine Empty PUnit) (hfunctions : ∀ c ∈ m.heap.functions, c.BuiltFrom protos)
    (hlimit : m.world.config.maxCallDepth = limit) (target : Val) (args : List Val) :
    ∃ r, Replied r ∧ ∀ n, limit + Proto.longestOf protos + 2 ≤ n →
      callFromOutside (perform n) target args m = r := by
  have hm : m.AtDepth protos limit m.thread.depth := by
    refine ⟨fun f => ?_, hlimit, rfl⟩
    rw [Heap.function, Array.getD_eq_getD_getElem?]
    cases hf : m.heap.functions[f.index]? with
    | none => exact rfl
    | some c => exact hfunctions c (Array.mem_of_getElem? hf)
  have hends : ∀ n, limit + Proto.longestOf protos + 2 ≤ n →
      Replied (callFromOutside (perform n) target args m) := fun n hn =>
    callFromOutside_replied (perform_endsAt hprotos (by omega)) target args hm
  refine ⟨_, hends _ (Nat.le_refl _), fun n hn => ?_⟩
  refine ((callFromOutside_outlasts hn target args m).resolve_left ?_).symm
  rintro ⟨t, ht⟩
  have h := hends _ (Nat.le_refl _)
  rw [ht] at h
  exact h

/-- Calls itself under protection, and does so once more when this has failed. -/
def Proto.retrying : Proto :=
  { ofName "retrying" with
    params := 2
    slots := 6
    code := #[.move 2 1, .move 3 0, .move 4 0, .move 5 1, .call 2 (.fixed 3) (.fixed 1),
      .test 2 true 10, .move 2 1, .move 3 0, .move 4 0, .move 5 1, .call 2 (.fixed 3) .open,
      .ret 2 .open] }

theorem Proto.retrying_forward : RunForward [.retrying] := by
  intro p hp q hq
  obtain rfl := List.mem_singleton.1 hp
  have hq : q = .retrying := by
    induction hq with
    | self => rfl
    | child _ hr ih =>
      rw [ih] at hr
      cases hr
  subst hq
  refine ⟨rfl, fun pc func args hop => ?_, fun pc op dest hop hdest => ?_⟩
  · have hmem := Array.mem_of_getElem? hop
    simp [retrying] at hmem
  · -- The test is the only op that jumps.
    have htest : pc < 12 → pc = 5 ∧ op = .test 2 true 10 := by
      intro hpc
      rcases pc with _ | _ | _ | _ | _ | _ | _ | _ | _ | _ | _ | _ | pc
      all_goals first | (cases hop; first | exact hdest.elim | exact ⟨rfl, rfl⟩) | omega
    obtain ⟨rfl, rfl⟩ := htest (Array.getElem?_eq_some_iff.1 hop).1
    cases hdest
    decide

/-- A body that calls itself and goes on when it meets the limit comes to its end. -/
theorem bounded_calls_end_retrying :
    let m : Machine Empty PUnit :=
      start ⟨#[], #[], #[.closure .retrying #[], .protectedCall .plain], #[]⟩ ⟨3, 8, 100⟩ none ⟨⟩
    RunForward [.retrying] ∧ (∀ c ∈ m.heap.functions, c.BuiltFrom [.retrying]) ∧
      m.world.config.maxCallDepth = 3 ∧
      ∃ r, Replied r ∧ ∀ n, 3 + Proto.longestOf [.retrying] + 2 ≤ n →
        callFromOutside (perform n) (.fn ⟨0⟩) [.fn ⟨0⟩, .fn ⟨1⟩] m = r := by
  intro m
  have hfunctions : ∀ c ∈ m.heap.functions, c.BuiltFrom [.retrying] := by
    intro c hc
    have hc : c ∈ [Callable.closure .retrying #[], .protectedCall .plain] := Array.mem_toList_iff.2 hc
    rcases List.mem_cons.1 hc with rfl | hc
    · exact ⟨_, List.mem_singleton_self _, .self⟩
    · obtain rfl := List.mem_singleton.1 hc
      exact trivial
  exact ⟨Proto.retrying_forward, hfunctions, rfl,
    bounded_calls_end [.retrying] 3 Proto.retrying_forward m hfunctions rfl (.fn ⟨0⟩) [.fn ⟨0⟩, .fn ⟨1⟩]⟩

end ScriptCore
