import ScriptCore.Proofs.ChannelReads

/-!
# Requests and the result channel

A body takes the outcome of an operation where the request of that operation has been carried
out, afresh or by a replay. With the library functions of `Clear`, so do all functions, calls,
tail calls and replays: no request reads the channel while it holds a tail call, and none leaves one
pending (`perform_settled`).
-/

namespace ScriptCore

open Machine

/-! ## Bodies -/

/-- The operation calls what the register holds. -/
def Op.Calls (op : Op) (r : Reg) : Prop :=
  match op with
  | .call func _ _ | .tailCall func _ => func = r
  | _ => False

namespace Interpreter

variable {F S : Type} {P : Perform F S} {f : FnId} {p : Proto} {pc : Nat}

theorem settled_faults {ov : Prop} {op : Op}
    (h : Faults ov (execute (fun _ => throw .exhausted) f p pc op : Body F S Next)) :
    Faults ov (settled f p pc op : Body F S Turn) :=
  h.bind fun next => by cases next <;> exact .pure _

theorem capturedCell_faults {ov : Prop} (f : FnId) (p : Proto) (idx : Nat) :
    Faults ov (capturedCell f p idx : M F S CellId) := by
  refine .after (get_lawful.bind fun _ => .pure _) fun c => ?_
  cases c with
  | closure q cells =>
    dsimp only
    split
    · exact .pure _
    · exact violate_faults (by simp)
  | _ => exact violate_faults (by simp)

theorem captureCells_faults {ov : Prop} (f : FnId) (p q : Proto) (view : View)
    (ds : List UpvalueDesc) (cells : Array CellId) :
    Faults ov (captureCells f p q view ds cells : M F S (Array CellId)) := by
  induction ds generalizing cells with
  | nil => exact .pure cells
  | cons d ds ih =>
    unfold captureCells
    cases d.capture with
    | slot r =>
      refine .after (get_lawful.bind fun _ => .pure _) fun slot => ?_
      cases slot with
      | cell c => exact ih _
      | value v => exact Faults.bind (violate_faults (by simp)) fun _ => ih _
    | upvalue idx => exact (capturedCell_faults f p _).bind fun _ => ih _

theorem makeClosure_faults {ov : Prop} (f : FnId) (p : Proto) (idx : Nat) :
    Faults ov (makeClosure f p idx : Body F S Val) := by
  unfold makeClosure
  split
  · exact Body.lift_faults (violate_faults (by simp))
  · refine .after Body.frame_lawful fun frame => Body.lift_faults ?_
    refine (captureCells_faults f p _ _ _ _).bind fun cells => .after (.of_ok fun m => ?_) fun _ =>
      .pure _
    obtain ⟨g, t, h, -⟩ := newClosure_ok (S := S) _ cells m
    exact ⟨g, t, h⟩

/-- **What leaves an operation early.** Up to its call this is a fault, or that there is no register
behind the one that it calls. -/
theorem prepare_faults (f : FnId) (p : Proto) (pc : Nat) (op : Op) :
    Faults (∃ r, op.Calls r ∧ Reg.next? r = none) (prepare f p pc op : Body F S Turn) := by
  have hset : ∀ {ov : Prop} (dst : Reg) (v : Val),
      Faults ov (do Body.setSlot dst.toNat v; return Next.goto (pc + 1) : Body F S Next) :=
    fun dst v => .after (Body.setSlot_lawful dst.toNat v) fun _ => .pure _
  by_cases hop : op.Needy
  · cases op with
    | getUpval dst idx =>
      refine settled_faults ((Body.lift_faults ?_).bind fun v => hset dst v)
      exact (capturedCell_faults f p _).bind fun _ => .after get_lawful fun _ => .pure _
    | setUpval idx src =>
      exact settled_faults ((Body.lift_faults (capturedCell_faults f p _)).bind fun c =>
        .after (Body.getSlot_lawful _) fun v => .after (Body.lift_lawful ((note_lawful _).bind fun _ =>
          onHeap_lawful _)) fun _ => .pure _)
    | closure dst child => exact settled_faults ((makeClosure_faults f p _).bind fun v => hset dst v)
    | append table base count first =>
      refine settled_faults (.after (Body.getSlot_lawful _) fun v => Faults.bind ?_ fun _ => .pure _)
      cases v with
      | table t =>
        exact .after (spanValues_lawful _ _) fun _ => Body.lift_faults ((note_lawful _).bind fun _ =>
          onHeap_lawful _).faults
      | _ => exact Body.lift_faults (violate_faults (by simp))
    | call func args results =>
      exact .after (Body.getSlot_lawful _) fun v => (Body.lift_faults (orOverflow_faults fun h =>
        ⟨func, rfl, h⟩)).bind fun n => (callFrom_lawful pc v args n).faults
    | tailCall func args =>
      exact settled_faults (.after (Body.getSlot_lawful _) fun v =>
        (Body.lift_faults (orOverflow_faults fun h => ⟨func, rfl, h⟩)).bind fun n =>
          (tailCallFrom_lawful v args n).faults)
    | _ => exact hop.elim
  · exact (prepare_lawful f p pc hop).faults

/-- Up to its call an operation reads no channel. -/
theorem prepare_clear (f : FnId) (p : Proto) (pc : Nat) (op : Op) :
    Clear (prepare f p pc op : Body F S Turn) := (prepare_faults f p pc op).clear

/-- The outcome of an operation is read where no tail call is pending. -/
theorem complete_clear (p : Proto) (pc : Nat) {s : Active F S} (h : s.machine.thread.results.Settled) :
    ClearAt (complete p pc) s := by
  cases hop : p.code[pc]? with
  | none =>
    have hc : (complete p pc : Body F S Unit) = Body.lift (violate (.pastCode p.name pc)) := by
      simp [complete, hop]
    rw [hc]
    exact Body.lift_clear (violate_clear (by simp)) s
  | some op =>
    by_cases hmay : op.maySuspend
    · obtain ⟨t, ht⟩ := complete_ok hop hmay h
      exact .of_ok ht
    · have hc : (complete p pc : Body F S Unit) = Body.lift (violate (.neverSuspends p.name pc op)) := by
        cases op with
        | unary op dst src =>
          cases op with
          | not => simp [complete, hop]
          | _ => exact (hmay rfl).elim
        | getGlobal | setGlobal | index | newIndex | binary | call => exact (hmay rfl).elim
        | _ => simp [complete, hop]
      rw [hc]
      exact Body.lift_clear (violate_clear (by simp)) s

variable (hP : Settles P)

include hP

theorem execute_clear {op : Op} (hop : p.code[pc]? = some op) :
    Clear (execute P f p pc op) := by
  rw [execute_eq P f hop]
  refine (prepare_clear f p pc op).bind fun turn => ?_
  cases turn with
  | ask w target =>
    exact hP.liftThen _ fun t ht => (complete_clear p pc ht).bind fun _ t _ => Clear.pure _ t
  | goto | done => exact .pure _

theorem loop_clear (f : FnId) (p : Proto) (fuel pc : Nat) : Clear (loop P f p fuel pc) := by
  induction fuel generalizing pc with
  | zero => exact .throw nofun
  | succ fuel ih =>
    unfold loop
    cases hop : p.code[pc]? with
    | none => exact Body.lift_clear (giveAll_lawful _).clear
    | some op =>
      refine (execute_clear hP hop).bind fun next => ?_
      cases next with
      | goto pc => exact ih pc
      | done => exact .pure _

/-- A body that goes on from an outcome does so where no tail call is pending. -/
theorem run_clear (fuel : Nat) (f : FnId) (p : Proto) {s : Active F S}
    (h : s.frame.index ≠ 0 → s.machine.thread.results.Settled) :
    ClearAt (Interpreter.run fuel P f p) s := by
  show ClearAt (if s.frame.index = 0 then (do
      reifyParams p 0 p.params
      loop P f p fuel 0)
    else (do
      complete p (s.frame.index - 1)
      loop P f p fuel s.frame.index) : Body F S Unit) s
  split
  · obtain ⟨t, ht⟩ := reifyParams_ok p 0 p.params s
    exact (ClearAt.of_ok ht).bind fun _ t _ => loop_clear hP f p fuel 0 t
  · rename_i hindex
    exact (complete_clear p _ (h hindex)).bind fun _ t _ => loop_clear hP f p fuel _ t

end Interpreter

namespace Routine

variable {F S : Type} {P : Perform F S} (hP : Settles P)

theorem getInteger_clear (i : Nat) (name : String) : Clear (do
    let v ← Body.getSlot i
    Body.lift (integer v name) : Body F S Int64) :=
  .after (Body.getSlot_lawful i) fun _ => Body.lift_clear (integer_clear _ _)

theorem predecessor_clear (n : Int64) : Clear (predecessor n : M F S Val) :=
  (orOverflow_clear _).bind fun _ => .pure _

include hP

theorem callOnce_clear {rest : Body F S Unit}
    (hrest : ∀ t : Active F S, t.machine.thread.results.Settled → ClearAt rest t)
    (turn : Interpreter.Turn) : Clear (callOnce P rest turn) := by
  cases turn with
  | ask w target => exact hP.liftThen _ hrest
  | goto | done => exact .pure _

omit hP in
theorem recurseEnd_clear {s : Active F S} (h : s.machine.thread.results.Settled) :
    ClearAt (recurseEnd : Body F S Unit) s :=
  Body.liftAt_clear ((result_clear h 0).bind fun v t _ =>
    Clear.after (successor_lawful v) (fun _ => (giveAll_lawful _).clear) t)

omit hP in
theorem recurseTurn_clear (packed : Bool) (frame : Frame) :
    Clear (recurseTurn packed frame : Body F S Interpreter.Turn) := by
  have hargs : Lawful (recurseArgs packed frame : Body F S (Val × Val)) := by
    cases packed with
    | true => exact .pure _
    | false =>
      exact (Body.getSlot_lawful 0).bind fun _ => (Body.getSlot_lawful 1).bind fun _ => .pure _
  refine .after hargs fun args => (Body.lift_clear (integer_clear _ _)).bind fun n => ?_
  refine .ite (.after (Body.lift_lawful (giveAll_lawful _)) fun _ => .pure _) ?_
  exact (Body.lift_clear (predecessor_clear n)).bind fun _ => .after (Body.setIndex_lawful 1) fun _ =>
    .after Body.scratch_lawful fun w => .after (Body.lift_lawful (onStack_lawful _)) fun _ => .pure _

theorem sumFrom_clear (add3 : Val) (n : Int64) (fuel : Nat) : Clear (sumFrom P add3 n fuel) := by
  induction fuel with
  | zero => exact .throw nofun
  | succ fuel ih =>
    rw [sumFrom_succ]
    refine (getInteger_clear 1 _).bind fun i => Clear.bind ?_ fun turn => callOnce_clear hP ?_ turn
    · refine .after (Body.getSlot_lawful 2) fun acc => .ite ?_ ?_
      · exact .after (Body.lift_lawful (giveAll_lawful _)) fun _ => .pure _
      · exact .after (Body.setSlots_lawful 3 _) fun _ => .after (Body.setIndex_lawful 1) fun _ =>
          .after Body.frame_lawful fun f => .after (Body.lift_lawful (onStack_lawful _)) fun _ => .pure _
    · intro t ht
      refine ClearAt.bind ?_ fun _ t _ => ih t
      refine ClearAt.bind (Body.liftAt_clear (result_clear ht 0)) fun v t _ => ?_
      exact Clear.after (Body.setSlot_lawful 2 v) (fun _ => (Body.lift_clear
        (orOverflow_clear _)).bind fun _ => (Body.setSlot_lawful 1 _).clear) t

/-- A body that goes on from an outcome does so where no tail call is pending. -/
theorem run_clear (fuel : Nat) (r : Routine) {s : Active F S}
    (h : s.frame.index ≠ 0 → s.machine.thread.results.Settled) : ClearAt (r.run fuel P) s := by
  have hget := Body.getSlot_lawful (F := F) (S := S)
  have hgive := fun v => Body.lift_clear (giveAll_lawful (F := F) (S := S) [v]).clear
  cases r with
  | recurse packed =>
    show ClearAt (runRecurse P packed) s
    rw [runRecurse_eq]
    refine ClearAt.bind (.of_ok rfl) fun frame t hframe => ?_
    cases hframe
    by_cases hindex : s.frame.index = 0
    · rw [if_pos hindex]
      exact (recurseTurn_clear packed s.frame).bind (callOnce_clear hP fun t => recurseEnd_clear) s
    · rw [if_neg hindex]
      split
      · exact recurseEnd_clear (h hindex)
      · exact ClearAt.bind (Body.lift_clear (violate_clear (by simp)) s) fun _ t ht => by cases ht
  | tailStep =>
    refine Clear.after (hget 0) (fun self => (getInteger_clear 1 _).bind fun n => .after (hget 2)
      fun acc => Body.lift_clear (.ite (giveAll_lawful _).clear ?_)) s
    exact .after (successor_lawful acc) fun _ => (predecessor_clear n).bind
      fun _ => (Lawful.of_ok fun _ => ⟨_, _, rfl⟩).clear
  | bounce =>
    refine (getInteger_clear 2 _).bind (fun n => .after (hget 0) fun self => .after (hget 1) fun other =>
      .after (hget 3) fun acc => Body.lift_clear (.ite (giveAll_lawful _).clear ?_)) s
    exact .after (successor_lawful acc) fun _ => (predecessor_clear n).bind
      fun _ => (Lawful.of_ok fun _ => ⟨_, _, rfl⟩).clear
  | sharedSum add3 =>
    have hentry : ClearAt (sumEntry add3 s.frame.index) s := by
      unfold sumEntry
      dsimp only
      split
      · exact (Body.setSlots_lawful 1 _).clear s
      · rename_i hindex
        have hs := h (by rw [hindex]; exact Nat.one_ne_zero)
        refine ClearAt.bind (Body.liftAt_clear (result_clear hs 0)) fun v t _ => ?_
        exact (getInteger_clear 1 _).bind (fun i => .after (Body.setSlot_lawful 2 _) fun _ =>
          (Body.lift_clear (orOverflow_clear _)).bind fun _ => (Body.setSlot_lawful 1 _).clear) t
      · exact Body.lift_clear (violate_clear (by simp)) s
    refine ClearAt.bind (.of_ok rfl) fun frame t hframe => ?_
    cases hframe
    exact hentry.bind fun _ t _ => (getInteger_clear 0 _).bind
      (fun n => sumFrom_clear hP add3 n fuel) t
  | echo =>
    have hinput : ClearAt (echoInput s.frame.index) s := by
      unfold echoInput
      split
      · exact (hget 0).clear s
      · rename_i hindex
        exact Body.liftAt_clear (result_clear (h (by rw [hindex]; exact Nat.one_ne_zero)) 0)
      · exact Body.lift_clear (violate_clear (by simp)) s
    refine ClearAt.bind (.of_ok rfl) fun frame t hframe => ?_
    cases hframe
    refine hinput.bind fun v t _ => Clear.after (Body.lift_lawful (successor_lawful v)) (fun next =>
      .after (Body.setIndex_lawful 1) fun _ => Body.lift_clear (yieldValues_clear _)) t

end Routine

/-! ## Calls, tail calls and replays -/

section Engine

variable {F S : Type} [HostFunction F] {P : Perform F S}

/-- A body ends as its run does, but for the link of a suspension. -/
theorem runBody_clear {f : FnId} {body : Body F S Unit} {frame : Frame} {m : Machine F S}
    (h : ClearAt body ⟨frame, m⟩) : ClearAt (runBody f body frame) m := by
  intro v t hrun
  unfold runBody at hrun
  cases hbody : body ⟨frame, m⟩ with
  | ok u s => rw [hbody] at hrun; cases hrun
  | error e s =>
    rw [hbody] at hrun
    cases e with
    | suspend c =>
      obtain ⟨x, hx⟩ := suspendFrame_ok f s.frame c s.machine
      cases hx.symm.trans hrun
    | fault c =>
      cases hrun
      exact h v s hbody
    | overflow | exhausted => cases hrun

theorem enterBody_clear (f : FnId) (layout : Layout) {body : Body F S Unit} (args : View)
    (h : ∀ s : Active F S, s.frame.index = 0 → ClearAt body s) :
    Clear (enterBody f layout body args) := by
  intro m
  obtain ⟨x, hx⟩ := openFrame_ok layout args m
  refine ClearAt.bind (.of_ok hx) fun frame t hframe => runBody_clear (h _ ?_)
  cases hx.symm.trans hframe
  rfl

theorem reenterBody_clear (hP : Settles P) (f : FnId) (name : String) (layout : Layout)
    {body : Body F S Unit} (w : View) (index : Nat) (saved : Saved) (inner : List Link)
    (values : List Val)
    (h : ∀ s : Active F S, s.machine.thread.results.Settled → ClearAt body s) :
    Clear (reenterBody P f name layout body w index saved inner values) := by
  have hrest : Clear (do
      let frame ← reopenFrame layout w index saved
      let scratch ← Body.scratchOf frame
      attempt (P (.replay inner values scratch)) >>= continueBody f body frame : M F S Unit) := by
    refine .after (.of_ok fun _ => ⟨_, _, rfl⟩) fun frame => .after (.of_ok fun _ => ⟨_, _, rfl⟩)
      fun scratch m => ?_
    refine attempt_clear (hP.clear _ m) (fun _ t ht => runBody_clear (h _ (hP.settled ht)))
      fun e he => ?_
    cases e with
    | suspend s =>
      intro t v u hx
      obtain ⟨x, hs⟩ := suspendFrame_ok f frame s t
      cases hs.symm.trans hx
    | _ => exact .throw he
  exact .ite (Clear.bind (violate_clear (by simp)) fun _ => hrest) hrest

end Engine

section Engine

variable {P : Perform Empty PUnit} (hP : Settles P)

include hP

theorem runFunction_clear (fuel : Nat) (f : FnId) (args : View) : Clear (runFunction fuel P f args) := by
  refine .after (get_lawful.bind fun _ => .pure _) fun c => ?_
  cases c with
  | closure proto cells =>
    exact enterBody_clear f _ args fun s hs => Interpreter.run_clear hP fuel f proto fun h => (h hs).elim
  | builtin b => exact runBuiltin_clear hP b args
  | protectedCall p => exact protectedCall_clear hP f p args
  | wrapped co =>
    exact .after (valuesFrom_lawful args 0) fun values => (resume_clear hP _ co values).bind
      fun _ => .pure ()
  | routine r => exact enterBody_clear f _ args fun s hs => Routine.run_clear hP fuel r fun h => (h hs).elim
  | host h => exact h.elim

theorem reenterFunction_clear (fuel : Nat) (link : Link) (inner : List Link) (values : List Val)
    (window : View) : Clear (reenterFunction fuel P link inner values window) := by
  refine .after (get_lawful.bind fun _ => .pure _) fun c => ?_
  cases c with
  | closure proto cells =>
    exact reenterBody_clear hP _ _ _ window _ _ inner values fun s hs =>
      Interpreter.run_clear hP fuel _ proto fun _ => hs
  | routine r =>
    exact reenterBody_clear hP _ _ _ window _ _ inner values fun s hs =>
      Routine.run_clear hP fuel r fun _ => hs
  | protectedCall p => exact resumeProtected_clear hP _ p window _ _ inner values
  | host h => exact h.elim
  | builtin | wrapped => exact violate_clear (by simp)

omit hP in
theorem shape_lawful (arity : Arity) (w : View) : Lawful (shape arity w : M Empty PUnit View) := by
  refine .of_ok fun m => ?_
  obtain ⟨k, s, y, hok⟩ := shape_ok arity w m
  exact ⟨_, _, hok⟩

omit hP in
theorem counted_clear {x : M Empty PUnit Unit} (hx : Clear x) :
    Clear (do Machine.enter; ensuring x leave) := by
  have henter : Clear (Machine.enter : M Empty PUnit Unit) := by
    intro m v t h
    rw [Regime.enter_eq] at h
    split at h <;> cases h
  exact henter.bind fun _ => ensuring_clear hx leave

theorem invoke_clear (fuel : Nat) (window : View) (target : Val) :
    Clear (invoke (runner fuel P) window target) := by
  refine .after (get_lawful.bind fun _ => .pure _) fun config => .after ?_ fun found => ?_
  · exact resolve_lawful window target _
  · refine .after (get_lawful.bind fun _ => .pure _) fun callable => .after ?_ fun args => ?_
    · exact shape_lawful callable.arity found.2
    · exact .after get_lawful fun _ => .after (record_lawful _) fun _ =>
        counted_clear (runFunction_clear hP fuel found.1 args)

theorem drain_clear (fuel n : Nat) (window : View) : Clear (drain (runner fuel P) window n) := by
  induction n generalizing window with
  | zero => exact .throw nofun
  | succ n ih =>
    refine .after (.of_ok fun _ => ⟨_, _, rfl⟩) fun target? => ?_
    cases target? with
    | none => exact .pure ()
    | some target =>
      exact .after get_lawful fun _ => .after (onStack_lawful _) fun w => .after (record_lawful _)
        fun _ => (invoke_clear hP fuel w target).bind fun _ => ih w

theorem step_clear (fuel : Nat) (request : Request) : Clear (step (runner fuel P) fuel request) := by
  cases request with
  | call window target => exact (invoke_clear hP fuel window target).bind fun _ => drain_clear hP fuel fuel window
  | replay links values window =>
    cases links with
    | nil => exact (giveAll_lawful values).clear
    | cons link inner =>
      refine Clear.bind (.after get_lawful fun _ => .after (record_lawful _) fun _ => ?_)
        fun _ => drain_clear hP fuel fuel window
      exact counted_clear (reenterFunction_clear hP fuel link inner values window)

end Engine

/-- **The channel is read where it holds values.** No request reads it while a tail call is
pending, and none leaves one pending. -/
theorem perform_settled (n : Nat) : Settles (perform n : Perform Empty PUnit) where
  clear request := by
    induction n generalizing request with
    | zero => exact .throw nofun
    | succ n ih => exact step_clear ⟨ih, perform_settles⟩ n request
  settled := perform_settles

end ScriptCore
