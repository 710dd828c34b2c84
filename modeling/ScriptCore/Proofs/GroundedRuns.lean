import ScriptCore.Proofs.GroundedBodies
import ScriptCore.Proofs.Resumes

/-!
# Runs and captured variables

Entering and leaving bodies, protected calls, resumes, and then calls, tail calls and replays. By
induction on the nesting every request of a grounded machine ends in a grounded machine and changes
the captured variables by operations of the store only (`perform_grounding`).
-/

namespace ScriptCore

open Machine

/-! ## Frames -/

section Frames

variable {m : Machine Empty PUnit} {f : FnId} {frame : Frame} {body : Body Empty PUnit Unit}

/-- The slots of a frame that is left. -/
theorem linkOf_within (hm : m.Grounded) (f : FnId) (frame : Frame) :
    (linkOf f frame m).Within m.heap.cells.size := fun x hx => by
  obtain ⟨i, -, rfl⟩ := List.mem_map.1 (show x ∈ frame.view.snapshot m.thread.stack frame.slots from hx)
  exact hm.stack _

theorem suspendWith_tracked (hm : m.Grounded) (f : FnId) (index : Nat) (saved : Saved)
    {c : Suspension} (hlink : Link.Within m.heap.cells.size ⟨f, index, saved⟩)
    (hc : ∀ link ∈ c.chain, link.Within m.heap.cells.size) :
    Tracked id m (suspendWith f index saved c m) := by
  obtain ⟨t, ht⟩ := suspendWith_ok f index saved c m
  rw [ht]
  refine ⟨.same hm rfl rfl rfl rfl, fun d hd link hmem => ?_⟩
  cases hd
  obtain rfl | hmem := List.mem_cons.1 hmem
  · exact hlink
  · exact hc link hmem

theorem suspendFrame_tracked (hm : m.Grounded) (f : FnId) (frame : Frame) {c : Suspension}
    (hc : ∀ link ∈ c.chain, link.Within m.heap.cells.size) :
    Tracked id m (suspendFrame f frame c m) := by
  obtain ⟨t, ht⟩ := suspendFrame_ok f frame c m
  rw [ht]
  refine ⟨.same hm rfl rfl rfl rfl, fun d hd link hmem => ?_⟩
  cases hd
  obtain rfl | hmem := List.mem_cons.1 hmem
  · exact linkOf_within hm f frame
  · exact hc link hmem

theorem runBody_tracks (hbody : BodyTracking body) (f : FnId) (frame : Frame) :
    Tracking (runBody f body frame) := fun m hm => by
  have h := hbody ⟨frame, m⟩ hm
  unfold runBody
  cases hb : body ⟨frame, m⟩ with
  | ok u s => rw [hb] at h; exact h
  | error e s =>
    rw [hb] at h
    cases e with
    | suspend c => exact (suspendFrame_tracked h.1.grounded f s.frame (h.2 c rfl)).trans h.1
    | fault | overflow | exhausted => exact ⟨h.1, nofun⟩

theorem openFrame_tracks (layout : Layout) (args : View) :
    Tracking (openFrame layout args : M Empty PUnit Frame) := by
  have hrest : ∀ varargs, Tracking (do
      let view ← fit args layout.params
      clearRange view layout.params layout.slots
      return (⟨view, 0, layout.slots, varargs⟩ : Frame) : M Empty PUnit Frame) := fun varargs =>
    (fit_tracks args _).bind fun v => (clearRange_tracks v _ _).bind fun _ => .pure _
  exact .ite ((valuesFrom_tracks args _).bind hrest) ((Tracks.pure []).bind hrest)

theorem enterBody_tracks (hbody : BodyTracking body) (f : FnId) (layout : Layout) (args : View) :
    Tracking (enterBody f layout body args) :=
  (openFrame_tracks layout args).bind fun frame => runBody_tracks hbody f frame

theorem continueBody_tracked (hm : m.Grounded) (hbody : BodyTracking body) (f : FnId)
    (frame : Frame) {ending : Except Unwind Unit}
    (h : ∀ c, ending = .error (.suspend c) → ∀ link ∈ c.chain, link.Within m.heap.cells.size) :
    Tracked id m (continueBody f body frame ending m) := by
  cases ending with
  | ok u => exact runBody_tracks hbody f frame m hm
  | error e =>
    cases e with
    | suspend c => exact suspendFrame_tracked hm f frame (h c rfl)
    | fault | overflow | exhausted => exact throw_tracked hm nofun

theorem reopenFrame_tracked (hm : m.Grounded) (layout : Layout) (view : View) (index : Nat)
    {saved : Saved} (hsaved : ∀ x ∈ saved.slots, x.Within m.heap.cells.size) :
    Tracked id m (reopenFrame layout view index saved m) :=
  (restore_tracked hm view hsaved).bind fun _ t _ ht =>
    ((setTop_tracks view saved.top).bind fun _ => .pure _) t ht.grounded

theorem reenterBody_tracked {P : Perform Empty PUnit} (hP : Grounding P) (hm : m.Grounded)
    (hbody : BodyTracking body) (f : FnId) (name : String) (layout : Layout) (view : View)
    (index : Nat) {saved : Saved} {inner : List Link} (values : List Val)
    (hsaved : ∀ x ∈ saved.slots, x.Within m.heap.cells.size)
    (hinner : ∀ link ∈ inner, link.Within m.heap.cells.size) :
    Tracked id m (reenterBody P f name layout body view index saved inner values m) := by
  by_cases hindex : index = 0
  · subst hindex
    rw [reenterBody_zero]
    exact fail_tracks _ m hm
  · rw [reenterBody_eq P f name layout body view hindex]
    refine (reopenFrame_tracked hm layout view index hsaved).bind fun frame t _ ht => ?_
    refine Tracked.bind (setTop_tracks _ 0 t ht.grounded) fun scratch u _ hu => ?_
    have hmoved := ht.trans hu
    refine attempt_tracked (hP _ u hmoved.grounded fun link hlink =>
      (hinner link hlink).mono hmoved.cells) (fun _ w hw => ?_) fun e w hw hchain => ?_
    · exact continueBody_tracked hw.grounded hbody f frame nofun
    · exact continueBody_tracked hw.grounded hbody f frame fun c hc => by
        cases hc
        exact hchain c rfl

end Frames

/-! ## Hand-written bodies -/

namespace Routine

variable {P : Perform Empty PUnit} (hP : Grounding P)

theorem successor_tracks (v : Val) : Tracking (successor v : M Empty PUnit Val) :=
  (orFail_tracks _).bind fun w? => by
    cases w? with
    | some w => exact .pure w
    | none => exact fail_tracks _

theorem predecessor_tracks (n : Int64) : Tracking (predecessor n : M Empty PUnit Val) :=
  (orOverflow_tracks _).bind fun _ => .pure _

theorem lift_integer_tracks (v : Val) (body : String) :
    BodyTracking (Body.lift (integer v body) : Body Empty PUnit Int64) :=
  Body.lift_tracks (integer_tracks v body)

theorem recurseArgs_tracks (packed : Bool) (frame : Frame) :
    BodyTracking (recurseArgs packed frame : Body Empty PUnit (Val × Val)) :=
  .ite (.pure _) ((Body.getSlot_tracks 0).bind fun _ => (Body.getSlot_tracks 1).bind fun _ => .pure _)

theorem runTailStep_tracks : BodyTracking (runTailStep : Body Empty PUnit Unit) :=
  (Body.getSlot_tracks 0).bind fun _ => (Body.getSlot_tracks 1).bind fun _ =>
    (lift_integer_tracks _ _).bind fun n => (Body.getSlot_tracks 2).bind fun acc =>
      Body.lift_tracks (.ite (give_tracks acc) ((successor_tracks acc).bind fun _ =>
        (predecessor_tracks n).bind fun _ => requestTailCall_tracks _ _))

theorem runBounce_tracks : BodyTracking (runBounce : Body Empty PUnit Unit) :=
  (Body.getSlot_tracks 2).bind fun _ => (lift_integer_tracks _ _).bind fun n =>
    (Body.getSlot_tracks 0).bind fun _ => (Body.getSlot_tracks 1).bind fun _ =>
      (Body.getSlot_tracks 3).bind fun acc =>
        Body.lift_tracks (.ite (give_tracks acc) ((successor_tracks acc).bind fun _ =>
          (predecessor_tracks n).bind fun _ => requestTailCall_tracks _ _))

theorem runEcho_tracks : BodyTracking (runEcho : Body Empty PUnit Unit) :=
  Body.frame_tracks.bind fun frame => Tracks.bind (by
    unfold echoInput
    split
    · exact Body.getSlot_tracks 0
    · exact Body.lift_tracks (result_tracks 0)
    · exact Body.lift_tracks (violate_tracks _)) fun v =>
      (Body.lift_tracks (successor_tracks v)).bind fun _ => (Body.setIndex_tracks 1).bind fun _ =>
        Body.lift_tracks (yieldValues_tracks _)

theorem sumEntry_tracks (add3 : Val) (index : Nat) :
    BodyTracking (sumEntry add3 index : Body Empty PUnit Unit) := by
  unfold sumEntry
  split
  · exact Body.setSlots_tracks 1 _
  · exact (Body.lift_tracks (result_tracks 0)).bind fun sum => (Body.getSlot_tracks 1).bind fun _ =>
      (lift_integer_tracks _ _).bind fun _ => (Body.setSlot_tracks 2 sum).bind fun _ =>
        (Body.lift_tracks (orOverflow_tracks _)).bind fun _ => Body.setSlot_tracks 1 _
  · exact Body.lift_tracks (violate_tracks _)

include hP

theorem runRecurse_tracks (packed : Bool) : BodyTracking (runRecurse P packed) := by
  have hend : BodyTracking (Body.lift do give (← successor (← result 0)) : Body Empty PUnit Unit) :=
    Body.lift_tracks ((result_tracks 0).bind fun v => (successor_tracks v).bind fun _ => give_tracks _)
  refine Body.frame_tracks.bind fun frame => .ite ?_ ?_
  · refine (recurseArgs_tracks packed frame).bind fun x => ?_
    obtain ⟨self, n⟩ := x
    refine (lift_integer_tracks n _).bind fun n => .ite ?_ ?_
    · exact Body.lift_tracks (give_tracks _)
    · exact (Body.lift_tracks (predecessor_tracks n)).bind fun _ =>
        (Body.callWith_tracks hP 1 self _).bind fun _ => hend
  · exact .ite ((Body.lift_tracks (violate_tracks _)).bind fun _ => hend) hend

theorem sumFrom_tracks (add3 : Val) (n : Int64) (fuel : Nat) :
    BodyTracking (sumFrom P add3 n fuel) := by
  induction fuel with
  | zero => exact .throw trivial
  | succ fuel ih =>
    refine (Body.getSlot_tracks 1).bind fun i => (lift_integer_tracks i _).bind fun i =>
      (Body.getSlot_tracks 2).bind fun acc => .ite (Body.lift_tracks (give_tracks acc)) ?_
    refine (Body.setSlots_tracks 3 _).bind fun _ => (Body.call_tracks hP 1 add3 3 3).bind fun _ =>
      Tracks.bind ?_ fun _ => ih
    exact (Body.lift_tracks (result_tracks 0)).bind fun _ => (Body.setSlot_tracks 2 _).bind fun _ =>
      (Body.lift_tracks (orOverflow_tracks _)).bind fun _ => Body.setSlot_tracks 1 _

theorem run_tracks (fuel : Nat) (r : Routine) : BodyTracking (r.run fuel P) := by
  cases r with
  | recurse packed => exact runRecurse_tracks hP packed
  | tailStep => exact runTailStep_tracks
  | bounce => exact runBounce_tracks
  | sharedSum add3 =>
    exact Body.frame_tracks.bind fun frame => (sumEntry_tracks add3 frame.index).bind fun _ =>
      (Body.getSlot_tracks 0).bind fun v => (lift_integer_tracks v _).bind fun n =>
        sumFrom_tracks hP add3 n fuel
  | echo => exact runEcho_tracks

end Routine

/-! ## Native functions that call -/

namespace Base

variable {P : Perform Empty PUnit} (hP : Grounding P) {args : View} {m : Machine Empty PUnit}

theorem addressed_tracks (v : Val) (name : Option String) :
    Tracking (addressed v name : M Empty PUnit String) := by
  unfold addressed
  split
  · exact .pure _
  · exact Tracks.get.bind fun _ => .pure _

include hP

theorem display_tracks (scratch : View) (v : Val) : Tracking (display P scratch v) :=
  (metamethod_tracks v .toString).bind fun h? => by
    cases h? with
    | some handler =>
      refine (load_tracks scratch [v]).bind fun w =>
        (callNonresumable_tracks hP w handler "__tostring").bind fun _ =>
          (result_tracks 0).bind fun text => ?_
      cases text with
      | str s => exact .pure s
      | nil | bool | int | float | table | fn | co => exact fail_tracks _
    | none =>
      refine (metatableOf_tracks v).bind fun t? => ?_
      cases t? with
      | some t => exact (tableAt_tracks t).bind fun _ => (Tracks.pure _).bind (addressed_tracks v)
      | none => exact (Tracks.pure none).bind (addressed_tracks v)

theorem line_tracks (scratch : View) (values : List Val) : Tracking (line P scratch values) := by
  induction values with
  | nil => exact .pure []
  | cons v vs ih => exact (display_tracks hP scratch v).bind fun _ => ih.bind fun _ => .pure _

theorem tostring_tracks : Tracking (tostring P args) :=
  (Args.checkAny_tracks 1 "tostring").bind fun v => (display_tracks hP _ v).bind fun _ => give_tracks _

theorem print_tracks : Tracking (print P args) :=
  (valuesFrom_tracks args 0).bind fun values => (line_tracks hP _ values).bind fun _ =>
    (emit_tracks _).bind fun _ => giveAll_tracks _

theorem handled_tracks (window : View) (handler v : Val) :
    Tracking (handled P window handler v) :=
  (load_tracks window [v]).bind fun w m hm =>
    attempt_tracked (callNonresumable_tracks hP w handler _ m hm)
      (fun _ t ht => result_tracks 0 t ht.grounded) fun e t ht hchain => by
        cases e with
        | fault f => exact Tracks.ite (p := id) (.pure f.value) (fail_tracks f) t ht.grounded
        | suspend | overflow | exhausted => exact throw_tracked ht.grounded hchain

theorem settle_tracked (hm : m.Grounded) (f : FnId) (p : Protection) (window : View) (handler : Val)
    {ending : Except Unwind Unit}
    (h : ∀ c, ending = .error (.suspend c) → ∀ link ∈ c.chain, link.Within m.heap.cells.size) :
    Tracked id m (settle P f p window handler ending m) := by
  cases ending with
  | ok u => exact prependResult_tracks _ m hm
  | error e =>
    cases e with
    | suspend c =>
      exact suspendWith_tracked hm f 1 ⟨[], 0, [handler]⟩ (fun x hx => by cases hx) (h c rfl)
    | fault fault =>
      refine Tracks.ite (p := id) (Tracks.get.bind fun _ => (record_tracks _).bind fun _ => ?_)
        (fail_tracks fault) m hm
      cases p with
      | plain => exact (Tracks.pure _).bind fun _ => giveAll_tracks _
      | handler => exact (handled_tracks hP window handler _).bind fun _ => giveAll_tracks _
    | overflow | exhausted => exact throw_tracked hm nofun

/-- A request under protection. -/
theorem guarded_tracked (hm : m.Grounded) (f : FnId) (p : Protection) (window : View)
    (handler : Val) (request : Request) (hrequest : request.Within m.heap.cells.size) :
    Tracked id m ((attempt (P request) >>= settle P f p window handler) m) :=
  attempt_tracked (hP request m hm hrequest)
    (fun _ _ ht => settle_tracked hP ht.grounded f p window handler nofun)
    fun _ _ ht hchain => settle_tracked hP ht.grounded f p window handler fun c hc => by
      cases hc
      exact hchain c rfl

theorem protectedCall_tracks (f : FnId) (p : Protection) : Tracking (protectedCall P f p args) := by
  refine (Args.checkAny_tracks 1 p.name).bind fun target => ?_
  cases p with
  | plain =>
    exact (Tracks.pure (Val.nil, 1)).bind fun _ m hm =>
      guarded_tracked hP hm f .plain _ _ (.call _ target) trivial
  | handler =>
    refine (Args.checkAny_tracks 2 _).bind fun handler => (Tracks.pure (handler, 2)).bind fun _ m hm =>
      guarded_tracked hP hm f .handler _ _ (.call _ target) trivial

theorem resumeProtected_tracked (hm : m.Grounded) (f : FnId) (p : Protection) (view : View)
    (index : Nat) (saved : Saved) {inner : List Link} (values : List Val)
    (hinner : ∀ link ∈ inner, link.Within m.heap.cells.size) :
    Tracked id m (resumeProtected P f p view index saved inner values m) := by
  unfold resumeProtected
  split
  · exact fail_tracks _ m hm
  · exact guarded_tracked hP hm f p view _ (.replay inner values view) hinner

end Base

/-! ## Resumes -/

section Resumes

variable {P : Perform Empty PUnit} (hP : Grounding P) {m : Machine Empty PUnit} {args : View}

/-- What is made of the ending of a coroutine. -/
theorem handBack_tracked (hm : m.Grounded) (outer : Option CoId) (boundaries : Nat) (co : CoId)
    {ending : Except Unwind Unit}
    (h : ∀ c, ending = .error (.suspend c) → ∀ link ∈ c.chain, link.Within m.heap.cells.size) :
    Tracked id m (handBack outer boundaries co ending m) := by
  refine Tracked.bind (switchTo_tracks _ _ m hm) fun _ t _ ht => ?_
  refine Tracked.bind (transition?_tracks outer (by exact nofun) t ht.grounded) fun _ u _ hu => ?_
  cases ending with
  | ok _ =>
    exact (transition_tracked hu.grounded co (by exact nofun)).bind fun _ w _ hw =>
      Tracks.pure _ w hw.grounded
  | error e =>
    cases e with
    | suspend c =>
      refine (transition_tracked hu.grounded co fun chain hchain link hlink => ?_).bind
        fun _ w _ hw => ((giveAll_tracks c.values).bind fun _ => .pure _) w hw.grounded
      cases hchain
      exact (h c rfl link hlink).mono (ht.trans hu).cells
    | fault f =>
      exact (transition_tracked hu.grounded co (by exact nofun)).bind fun _ w _ hw =>
        fail_tracks f w hw.grounded
    | overflow | exhausted => exact throw_tracked hu.grounded nofun

/-- A coroutine that runs and hands back. -/
theorem resumeWith_tracked (hm : m.Grounded) (co : CoId) (nargs : Nat) {run : M Empty PUnit Unit}
    (hrun : ∀ t, m.Moves t → Tracked id t (run t)) :
    Tracked id m (resumeWith co nargs run m) := by
  refine Tracked.bind (putCoroutine_tracked hm co (by exact nofun)) fun _ a _ ha => ?_
  refine Tracked.bind (record_tracks _ a ha.grounded) fun _ b _ hb => ?_
  refine Tracked.bind (switchTo_tracks _ 0 b hb.grounded) fun before c _ hc => ?_
  obtain ⟨outer, boundaries⟩ := before
  refine Tracked.bind (transition?_tracks outer (by exact nofun) c hc.grounded) fun _ d _ hd => ?_
  show Tracked id d ((attempt run >>= handBack outer boundaries co) d)
  exact attempt_tracked (hrun d (((ha.trans hb).trans hc).trans hd))
    (fun _ t ht => handBack_tracked ht.grounded outer boundaries co nofun)
    fun e t ht hchain => handBack_tracked ht.grounded outer boundaries co fun c hc => by
      cases hc
      exact hchain c rfl

include hP

theorem resume_tracks (window : View) (co : CoId) (values : List Val) :
    Tracking (resume P window co values) := fun m hm => by
  have hchains := hm.chains co
  unfold resume
  rw [bind_of_ok (show coroutineAt co m = .ok (m.heap.coroutine co) m from rfl)]
  cases hco : m.heap.coroutine co with
  | dead | running | normal => exact fail_tracks _ m hm
  | fresh body =>
    exact resumeWith_tracked hm co _ fun t ht => callWith_tracks hP window body values t ht.grounded
  | suspended chain =>
    exact resumeWith_tracked hm co _ fun t ht => hP _ t ht.grounded fun link hlink =>
      (hchains chain hco link hlink).mono ht.cells

theorem resumeNative_tracks : Tracking (Coroutines.resume P args) :=
  (Args.checkCoroutine_tracks 1 "resume").bind fun co => (valuesFrom_tracks args 1).bind
    fun values m hm => attempt_tracked (resume_tracks hP _ co values m hm)
      (fun _ t ht => prependResult_tracks _ t ht.grounded) fun e t ht hchain => by
        cases e with
        | fault f => exact Tracks.ite (p := id) (giveAll_tracks _) (fail_tracks f) t ht.grounded
        | suspend | overflow | exhausted => exact throw_tracked ht.grounded hchain

theorem callWrapped_tracks (co : CoId) : Tracking (Coroutines.callWrapped P co args) :=
  (valuesFrom_tracks args 0).bind fun values => (resume_tracks hP _ co values).bind fun _ => .pure _

/-- **Native functions.** -/
theorem runBuiltin_tracks (b : Builtin) : Tracking (runBuiltin P b args) := by
  by_cases hplain : b.isPlain
  · exact plain_tracks P hplain
  cases b with
  | tostring => exact Base.tostring_tracks hP
  | print => exact Base.print_tracks hP
  | create => exact Coroutines.create_tracks
  | resume => exact resumeNative_tracks hP
  | yield => exact Coroutines.yield_tracks
  | status => exact Coroutines.status_tracks
  | running => exact Coroutines.running_tracks
  | isyieldable => exact Coroutines.isyieldable_tracks
  | wrap => exact Coroutines.wrap_tracks
  | assert | error | select | type | rawequal | rawget | rawset | rawlen | getmetatable
  | setmetatable | rawGetmetatable | rawSetmetatable | getupvalue | setupvalue | upvalueid
  | upvaluejoin | add3 | counterAdd => exact (hplain rfl).elim

/-! ## Calls -/

theorem runFunction_tracks (fuel : Nat) (f : FnId) : Tracking (runFunction fuel P f args) :=
  (functionAt_tracks f).bind fun c => by
    cases c with
    | closure p cells => exact enterBody_tracks (Interpreter.run_tracks hP fuel f p) f _ args
    | builtin b => exact runBuiltin_tracks hP b
    | protectedCall p => exact Base.protectedCall_tracks hP f p
    | wrapped co => exact callWrapped_tracks hP co
    | routine r => exact enterBody_tracks (Routine.run_tracks hP fuel r) f _ args
    | host h => exact h.elim

theorem reenterFunction_tracked (hm : m.Grounded) (fuel : Nat) {link : Link} {inner : List Link}
    (hlink : link.Within m.heap.cells.size) (hinner : ∀ link ∈ inner, link.Within m.heap.cells.size)
    (values : List Val) (window : View) :
    Tracked id m (reenterFunction fuel P link inner values window m) := by
  obtain ⟨f, index, saved⟩ := link
  unfold reenterFunction
  dsimp only
  rw [bind_of_ok (show functionAt f m = .ok (m.heap.function f) m from rfl)]
  cases m.heap.function f with
  | closure p cells =>
    exact reenterBody_tracked hP hm (Interpreter.run_tracks hP fuel f p) f _ _ window index values
      hlink hinner
  | routine r =>
    exact reenterBody_tracked hP hm (Routine.run_tracks hP fuel r) f _ _ window index values
      hlink hinner
  | protectedCall p => exact Base.resumeProtected_tracked hP hm f p window index saved values hinner
  | builtin | wrapped => exact violate_tracks _ m hm
  | host h => exact h.elim

omit hP

theorem resolve_tracks (window : View) (target : Val) (limit : Nat) :
    Tracking (resolve window target limit : M Empty PUnit (FnId × View)) := by
  induction limit generalizing window target with
  | zero =>
    unfold resolve
    split
    · exact .pure _
    · refine (metamethod_tracks _ _).bind fun h? => ?_
      cases h? <;> exact fail_tracks _
  | succ limit ih =>
    unfold resolve
    split
    · exact .pure _
    · refine (metamethod_tracks _ _).bind fun h? => ?_
      cases h? with
      | none => exact fail_tracks _
      | some handler =>
        exact (record_tracks _).bind fun _ => (insertFront_tracks _ _).bind fun w => ih w handler

theorem shape_tracks (arity : Arity) (window : View) :
    Tracking (shape arity window : M Empty PUnit View) := by
  cases arity with
  | fixed n => exact fit_tracks window n
  | variadic => exact .pure window

/-- What is counted in and out as a call. -/
theorem counted_tracked (hm : m.Grounded) {x : M Empty PUnit Unit}
    (hx : ∀ t, m.Moves t → Tracked id t (x t)) :
    Tracked id m ((do enter; ensuring x leave) m) :=
  Tracked.bind (enter_tracks m hm) fun _ t _ ht =>
    ensuring_tracked (hx t ht) (fun _ => rfl) fun _ => rfl

include hP

theorem invoke_tracks (fuel : Nat) (window : View) (target : Val) :
    Tracking (invoke (runner fuel P) window target) :=
  config_tracks.bind fun _ => (resolve_tracks window target _).bind fun x =>
    (functionAt_tracks x.1).bind fun c => (shape_tracks c.arity x.2).bind fun _ =>
      Tracks.get.bind fun _ => (record_tracks _).bind fun _ _ hm =>
        counted_tracked hm fun t ht => runFunction_tracks hP fuel x.1 t ht.grounded

theorem drain_tracks (fuel : Nat) (window : View) (n : Nat) :
    Tracking (drain (runner fuel P) window n) := by
  induction n generalizing window with
  | zero => exact .throw trivial
  | succ n ih =>
    refine (onResults_tracks _).bind fun target? => ?_
    cases target? with
    | none => exact .pure ()
    | some target =>
      exact Tracks.get.bind fun _ => (load_tracks window _).bind fun w =>
        (record_tracks _).bind fun _ => (invoke_tracks hP fuel w target).bind fun _ => ih w

theorem reenter_tracked (hm : m.Grounded) (fuel : Nat) {link : Link} {inner : List Link}
    (hlink : link.Within m.heap.cells.size) (hinner : ∀ link ∈ inner, link.Within m.heap.cells.size)
    (values : List Val) (window : View) :
    Tracked id m (reenter (runner fuel P) link inner values window m) := by
  refine Tracked.bind (Tracks.get m hm) fun _ a _ ha => ?_
  refine Tracked.bind (record_tracks _ a ha.grounded) fun _ b _ hb => ?_
  have hab := ha.trans hb
  exact counted_tracked hb.grounded fun t ht => reenterFunction_tracked hP ht.grounded fuel
    (hlink.mono (hab.trans ht).cells) (fun l hl => (hinner l hl).mono (hab.trans ht).cells) values
    window

end Resumes

/-- **Runs.** With any fuel, what a request does to the captured variables of a grounded machine are
operations of the store, and it leaves a grounded machine. -/
theorem perform_grounding (fuel : Nat) : Grounding (perform fuel) := by
  induction fuel with
  | zero => exact fun _ m hm _ => Tracks.throw (p := id) (e := .exhausted) trivial m hm
  | succ fuel ih =>
    intro request m hm hrequest
    cases request with
    | call window target =>
      exact ((invoke_tracks ih fuel window target).bind fun _ => drain_tracks ih fuel window fuel) m hm
    | replay links values window =>
      cases links with
      | nil => exact giveAll_tracks values m hm
      | cons link inner =>
        exact (reenter_tracked ih hm fuel (hrequest link List.mem_cons_self)
          (fun l hl => hrequest l (List.mem_cons_of_mem link hl)) values window).bind
          fun _ t _ ht => drain_tracks ih fuel window fuel t ht.grounded

end ScriptCore
