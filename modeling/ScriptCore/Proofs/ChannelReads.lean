import ScriptCore.Proofs.Fuel
import ScriptCore.Proofs.Validation

/-!
# Reads of the result channel

Library functions and operators read the results only where a request has just been carried out,
and then no tail call is pending. So they never read the channel while it holds a tail call
(`Clear`), if their requests do not (`Settles`).
-/

namespace ScriptCore

open Machine

section Clear

variable {σ α β : Type}

/-- A step that from `s` on does not read the channel while a tail call is pending. -/
def ClearAt (x : EStateM Unwind σ α) (s : σ) : Prop := Breaks (· ≠ .pendingTailCall) x s

/-- A step that never reads the channel while a tail call is pending. -/
def Clear (x : EStateM Unwind σ α) : Prop := ∀ s, ClearAt x s

theorem ClearAt.bind {x : EStateM Unwind σ α} {f : α → EStateM Unwind σ β} {s : σ}
    (hx : ClearAt x s) (hf : ∀ a t, x s = .ok a t → ClearAt (f a) t) : ClearAt (x >>= f) s :=
  Breaks.bind hx hf

theorem ClearAt.of_ok {x : EStateM Unwind σ α} {s t : σ} {a : α} (h : x s = .ok a t) : ClearAt x s :=
  Breaks.of_ok h

theorem Lawful.clear {x : EStateM Unwind σ α} (h : Lawful x) : Clear x := fun _ => h.breaks

namespace Clear

variable {x y : EStateM Unwind σ α}

theorem bind {f : α → EStateM Unwind σ β} (hx : Clear x) (hf : ∀ a, Clear (f a)) : Clear (x >>= f) :=
  fun s => ClearAt.bind (hx s) fun a t _ => hf a t

theorem pure (a : α) : Clear (pure a : EStateM Unwind σ α) := (Lawful.pure a).clear

/-- A step that breaks nothing, and then a clear one. -/
theorem after {f : α → EStateM Unwind σ β} (hx : Lawful x) (hf : ∀ a, Clear (f a)) :
    Clear (x >>= f) := hx.clear.bind hf

theorem throw {e : Unwind} (he : e ≠ .fault (.contract .pendingTailCall)) :
    Clear (throw e : EStateM Unwind σ α) := by
  rintro s v t h rfl
  cases h
  exact he rfl

theorem ite {p : Prop} [Decidable p] (hx : Clear x) (hy : Clear y) : Clear (if p then x else y) := by
  split
  · exact hx
  · exact hy

end Clear

/-! ### Faults -/

/-- A step that ends early at most with a fault, and not with that of a channel that holds a tail
call; or else, if `ov`, because machine arithmetic left its range. -/
def Faults (ov : Prop) (x : EStateM Unwind σ α) : Prop :=
  ∀ s e t, x s = .error e t →
    (ov ∧ e = .overflow) ∨ ∃ f, e = .fault f ∧ f ≠ .contract .pendingTailCall

theorem Lawful.faults {x : EStateM Unwind σ α} (h : Lawful x) {ov : Prop} : Faults ov x := by
  intro s e t hx
  obtain ⟨f, rfl, hf⟩ := h s e t hx
  refine .inr ⟨f, rfl, ?_⟩
  rintro rfl
  cases hf

namespace Faults

variable {ov : Prop} {x : EStateM Unwind σ α}

theorem bind {f : α → EStateM Unwind σ β} (hx : Faults ov x) (hf : ∀ a, Faults ov (f a)) :
    Faults ov (x >>= f) := by
  intro s e t h
  rcases error_of_bind h with hxs | ⟨a, u, -, hfa⟩
  · exact hx s e t hxs
  · exact hf a u e t hfa

theorem pure (a : α) : Faults ov (pure a : EStateM Unwind σ α) := (Lawful.pure a).faults

/-- A lawful step, and then one that ends early at most with faults. -/
theorem after {f : α → EStateM Unwind σ β} (hx : Lawful x) (hf : ∀ a, Faults ov (f a)) :
    Faults ov (x >>= f) := hx.faults.bind hf

theorem clear (h : Faults ov x) : Clear x := by
  rintro s v t hx rfl
  rcases h s _ t hx with ⟨-, he⟩ | ⟨f, he, hf⟩
  · cases he
  · cases he
    exact hf rfl

end Faults

end Clear

section Steps

variable {F S α β : Type} {x : M F S α} {m : Machine F S}

namespace Machine

theorem violate_faults {ov : Prop} {v : Violation} (hv : v ≠ .pendingTailCall) :
    Faults ov (violate v : M F S α) := by
  intro s e t h
  cases h
  exact .inr ⟨.contract v, rfl, fun h => by cases h; exact hv rfl⟩

theorem violate_clear {v : Violation} (hv : v ≠ .pendingTailCall) :
    Clear (violate v : M F S α) := (violate_faults hv : Faults False (violate v : M F S α)).clear

theorem orOverflow_faults {ov : Prop} {a? : Option α} (h : a? = none → ov) :
    Faults ov (orOverflow a? : M F S α) := by
  intro s e t hx
  cases a? with
  | some a => cases hx
  | none =>
    cases hx
    exact .inl ⟨h rfl, rfl⟩

theorem orOverflow_clear (a? : Option α) : Clear (orOverflow a? : M F S α) :=
  (orOverflow_faults fun _ => trivial : Faults True (orOverflow a? : M F S α)).clear

theorem result_clear (h : m.thread.results.Settled) (i : Nat) : ClearAt (result i : M F S Val) m :=
  .of_ok (result_ok h i)

theorem read_settled {r : Results} (h : r.Settled) : r.read = .ok r.values := by
  rw [Results.read, Results.isTailCall, h]
  rfl

theorem prependResult_ok (h : m.thread.results.Settled) (v : Val) :
    (prependResult v : M F S Unit) m = .ok () (m.withResults (v :: m.thread.results.values)) := by
  show (orViolate (m.thread.results.prepend v) >>= setChannel : M F S Unit) m = _
  rw [Results.prepend, read_settled h]
  rfl

theorem takeResults_ok (h : m.thread.results.Settled) :
    ∃ t, (takeResults : M F S (List Val)) m = .ok m.thread.results.values t := by
  refine ⟨{ m with thread := { m.thread with results := .empty } }, ?_⟩
  show ((orViolate m.thread.results.take : M F S (List Val × Results)) >>= fun r => do
    setChannel r.2
    return r.1) m = _
  rw [Results.take, read_settled h]
  rfl

/-- What is done with the ending of a step, where this ending did not read a pending tail call. -/
theorem attempt_clear {k : Except Unwind α → M F S β} (hx : ClearAt x m)
    (hok : ∀ a t, x m = .ok a t → ClearAt (k (.ok a)) t)
    (herror : ∀ e, e ≠ .fault (.contract .pendingTailCall) → Clear (k (.error e))) :
    ClearAt (attempt x >>= k) m := by
  intro v t h
  rw [attempt_bind] at h
  cases hxm : x m with
  | ok a u =>
    rw [hxm] at h
    exact hok a u hxm v t h
  | error e u =>
    rw [hxm] at h
    refine herror e (fun he => ?_) u v t h
    exact hx _ u (he ▸ hxm) rfl

theorem ensuring_clear (hx : Clear x) (after : Machine F S → Machine F S) :
    Clear (ensuring x after) := by
  intro m v t h
  unfold ensuring at h
  cases hxm : x m with
  | ok a u => rw [hxm] at h; cases h
  | error e u =>
    rw [hxm] at h
    cases h
    exact hx m v u hxm

end Machine

theorem Body.lift_faults {ov : Prop} (hx : Faults ov x) : Faults ov (Body.lift x) := by
  intro s e t h
  simp only [lift] at h
  cases hxs : x s.machine with
  | ok a m => rw [hxs] at h; cases h
  | error e' m =>
    rw [hxs] at h
    cases h
    exact hx s.machine e m hxs

theorem Body.lift_clear (hx : Clear x) : Clear (Body.lift x) := fun s => lift_breaks (hx s.machine)

theorem Body.liftAt_clear {s : Active F S} (hx : ClearAt x s.machine) : ClearAt (Body.lift x) s :=
  lift_breaks hx

/-- Requests are carried out by clear steps and leave results. -/
structure Settles (P : Perform F S) : Prop where
  clear : ∀ request, Clear (P request)
  settled : ∀ {request m t}, P request m = .ok () t → t.thread.results.Settled

end Steps

section Requests

variable {F S α : Type} {P : Perform F S} (hP : Settles P)

include hP

/-- A request, and then what may read its results. -/
theorem Settles.andThen (request : Request) {k : M F S α}
    (hk : ∀ t : Machine F S, t.thread.results.Settled → ClearAt k t) :
    Clear (P request >>= fun _ => k) := fun m =>
  ClearAt.bind (hP.clear request m) fun _ t ht => hk t (hP.settled ht)

/-- A request of a body, and then what may read its results. -/
theorem Settles.liftThen (request : Request) {k : Body F S α}
    (hk : ∀ t : Active F S, t.machine.thread.results.Settled → ClearAt k t) :
    Clear (Body.lift (P request) >>= fun _ => k) := fun s =>
  ClearAt.bind (Body.liftAt_clear (hP.clear request s.machine)) fun _ t ht =>
    hk t (hP.settled (Body.lift_ok ht).1)

theorem callWith_clear (w : View) (target : Val) (args : List Val) :
    Clear (callWith P w target args) := .after (onStack_lawful _) fun _ => hP.clear _

theorem callMeta_clear (w : View) (handler : Val) (args : List Val) :
    Clear (callMeta P w handler args) := by
  have h : callMeta P w handler args = (do
      let w ← load w args
      P (.call w handler)
      result 0) := by
    simp only [callMeta, callWith, bind_assoc]
  rw [h]
  exact .after (onStack_lawful _) fun w => hP.andThen _ fun t ht => result_clear ht 0

theorem callNonresumable_clear (w : View) (target : Val) (name : String) :
    Clear (callNonresumable P w target name) := by
  refine .after (.of_ok fun _ => ⟨_, _, rfl⟩) fun _ m => ?_
  refine attempt_clear (ensuring_clear (hP.clear _) leaveBoundary m) (fun _ t _ => Clear.pure _ t)
    fun e he => ?_
  cases e with
  | suspend s => exact .throw nofun
  | _ => exact .throw he

theorem callNonresumable_settled {w : View} {target : Val} {name : String} {m t : Machine F S}
    (h : callNonresumable P w target name m = .ok () t) : t.thread.results.Settled := by
  rw [callNonresumable_eq] at h
  cases hr : P (.call w target) (bounded m) with
  | ok u v =>
    rw [hr] at h
    cases h
    have hv : v.thread.results.Settled := hP.settled hr
    exact hv
  | error e v =>
    rw [hr] at h
    cases e <;> cases h

/-! ## Operations with handlers -/

theorem answer_clear (w : View) (post : Val → Val) (intent : Intent) :
    Clear (answer P w post intent) := by
  cases intent with
  | value v => exact .pure v
  | ask handler args => exact (callMeta_clear hP w handler args).bind fun _ => .pure _

theorem enact_clear (w : View) (intent : Intent) : Clear (enact P w intent) := by
  cases intent with
  | value v => exact .pure ()
  | ask handler args => exact callWith_clear hP w handler args

/-! ## Resumes -/

omit hP in
theorem transition_lawful (co : CoId) (c : Coroutine) : Lawful (transition co c : M F S Unit) :=
  .of_ok fun m => (transition_ok co c m).elim fun _ h => ⟨_, _, h⟩

omit hP in
theorem transition?_lawful (co : Option CoId) (c : Coroutine) :
    Lawful (transition? co c : M F S Unit) :=
  .of_ok fun m => (transition?_ok co c m).elim fun _ h => ⟨_, _, h⟩

omit hP in
theorem resumeWith_clear (co : CoId) (n : Nat) {run : M F S Unit} (hrun : Clear run) :
    Clear (resumeWith co n run) := by
  intro m
  obtain ⟨t, ht⟩ := resumeWith_eq co n m
  have hback : ∀ ending : Except Unwind Unit,
      ending ≠ .error (.fault (.contract .pendingTailCall)) →
      Clear (handBack m.thread.current m.thread.boundaries co ending : M F S Outcome) := by
    intro ending hne
    refine .after (.of_ok fun _ => ⟨_, _, rfl⟩) fun _ => .after (transition?_lawful _ _) fun _ => ?_
    cases ending with
    | ok => exact .after (transition_lawful _ _) fun _ => .pure _
    | error e =>
      cases e with
      | suspend s =>
        exact .after (transition_lawful _ _) fun _ => .after (.of_ok fun _ => ⟨_, _, rfl⟩)
          fun _ => .pure _
      | fault f =>
        exact .after (transition_lawful _ _) fun _ => .throw fun h => hne (by rw [h])
      | overflow | exhausted => exact .throw nofun
  intro v u hx
  rw [ht] at hx
  refine attempt_clear (hrun _) (fun _ u _ => hback (.ok ()) nofun u) (fun e he => ?_) v u hx
  exact hback (.error e) fun h => he (Except.error.inj h)

theorem resume_clear (w : View) (co : CoId) (values : List Val) : Clear (resume P w co values) := by
  refine .after (get_lawful.bind fun _ => .pure _) fun c => ?_
  cases c with
  | fresh body => exact resumeWith_clear co _ (callWith_clear hP w body values)
  | suspended chain => exact resumeWith_clear co _ (hP.clear _)
  | running | normal | dead => exact .throw nofun

/-- A resume hands back values: those of the end of the coroutine, or those of its yield. -/
theorem resume_settled {w : View} {co : CoId} {values : List Val} {m t : Machine F S} {o : Outcome}
    (h : resume P w co values m = .ok o t) : t.thread.results.Settled := by
  have hwith : ∀ run : M F S Unit,
      (∀ m t, run m = .ok () t → t.thread.results.Settled) →
      ∀ n, resumeWith co n run m = .ok o t → t.thread.results.Settled := by
    intro run hrun n h
    obtain ⟨x, hx⟩ := resumeWith_eq co n m
    rw [hx, attempt_bind] at h
    cases hr : run { m.turnedTo co with trace := x } with
    | ok u v =>
      rw [hr] at h
      obtain ⟨y, hy⟩ := handBack_ok m.thread.current m.thread.boundaries co v
      cases hy.symm.trans h
      have hv : v.thread.results.Settled := hrun _ _ hr
      exact hv
    | error e v =>
      rw [hr] at h
      cases e with
      | suspend s =>
        obtain ⟨y, hy⟩ := handBack_suspend m.thread.current m.thread.boundaries co v s
        cases hy.symm.trans h
        rfl
      | fault f =>
        obtain ⟨y, hy⟩ := handBack_fault m.thread.current m.thread.boundaries co v f
        cases hy.symm.trans h
      | overflow =>
        obtain ⟨y, hy⟩ := handBack_throw m.thread.current m.thread.boundaries co v (e := .overflow) id
        cases hy.symm.trans h
      | exhausted =>
        obtain ⟨y, hy⟩ := handBack_throw m.thread.current m.thread.boundaries co v (e := .exhausted) id
        cases hy.symm.trans h
  rw [resume_from] at h
  cases hc : m.heap.coroutine co with
  | fresh body =>
    rw [hc] at h
    refine hwith _ (fun m t hrun => ?_) _ h
    obtain ⟨_, u, -, hrun⟩ := ok_of_bind hrun
    exact hP.settled hrun
  | suspended chain =>
    rw [hc] at h
    exact hwith _ (fun m t hrun => hP.settled hrun) _ h
  | running | normal | dead =>
    rw [hc] at h
    cases h

end Requests

/-! ## Native functions -/

section Arguments

open Args

variable {F S : Type} (args : View) (n : Nat) (function : String)

theorem arg_lawful : Lawful (arg args n : M F S Val) := by
  unfold arg
  split
  · exact .pure _
  · exact get_lawful.bind fun _ => .pure _

theorem mismatch_lawful {α : Type} (what : String) : Lawful (mismatch args n function what : M F S α) := by
  have hfail : ∀ got, Lawful (fail (.argument n function (.expected what got)) : M F S α) :=
    fun _ => fail_lawful rfl
  unfold mismatch
  dsimp only
  split
  · exact (Lawful.pure none).bind hfail
  · exact (arg_lawful args n).bind fun v => (Lawful.pure (some v.kind)).bind hfail

theorem checkAny_lawful : Lawful (checkAny args n function : M F S Val) := by
  unfold checkAny
  dsimp only
  split
  · exact (fail_lawful rfl).bind fun _ => arg_lawful args n
  · exact arg_lawful args n

theorem checkTable_lawful : Lawful (checkTable args n function : M F S TableId) := by
  refine (arg_lawful args n).bind fun v => ?_
  cases v with
  | table t => exact .pure t
  | _ => exact mismatch_lawful args n function _

theorem checkFunction_lawful : Lawful (checkFunction args n function : M F S FnId) := by
  refine (arg_lawful args n).bind fun v => ?_
  cases v with
  | fn f => exact .pure f
  | _ => exact mismatch_lawful args n function _

theorem checkCoroutine_lawful : Lawful (checkCoroutine args n function : M F S CoId) := by
  refine (arg_lawful args n).bind fun v => ?_
  cases v with
  | co c => exact .pure c
  | _ => exact mismatch_lawful args n function _

theorem checkInt_lawful : Lawful (checkInt args n function : M F S Int64) := by
  refine (arg_lawful args n).bind fun v => ?_
  cases v with
  | int i => exact .pure i
  | float x =>
    dsimp only
    split
    · exact .pure _
    · exact fail_lawful rfl
  | _ => exact mismatch_lawful args n function _

theorem optInt_lawful (default : Int64) : Lawful (optInt args n function default : M F S Int64) := by
  refine (arg_lawful args n).bind fun v => ?_
  split
  · exact .pure _
  · exact checkInt_lawful args n function

theorem optTable_lawful : Lawful (optTable args n function : M F S (Option TableId)) := by
  refine (arg_lawful args n).bind fun v => ?_
  cases v with
  | nil => exact .pure none
  | table t => exact .pure (some t)
  | _ => exact mismatch_lawful args n function _

end Arguments

section Natives

variable {F S : Type}

theorem giveAll_lawful (values : List Val) : Lawful (giveAll values : M F S Unit) :=
  .of_ok fun _ => ⟨_, _, rfl⟩

theorem valuesFrom_lawful (v : View) (first : Nat) : Lawful (valuesFrom v first : M F S (List Val)) :=
  get_lawful.bind fun _ => .pure _

theorem metatableOf_lawful (v : Val) : Lawful (metatableOf v : M F S (Option TableId)) := by
  refine get_lawful.bind fun m => ?_
  split <;> exact .pure _

theorem tableAt_lawful (t : TableId) : Lawful (tableAt t : M F S Table) :=
  get_lawful.bind fun _ => .pure _

theorem named_lawful [HostFunction F] (v : Val) : Lawful (Base.named v : M F S String) := by
  have haddressed (name : Option String) : Lawful (Base.addressed v name : M F S String) := by
    unfold Base.addressed
    split
    · exact .pure _
    · exact get_lawful.bind fun _ => .pure _
  refine (metatableOf_lawful v).bind fun t? => ?_
  cases t? with
  | none => exact (Lawful.pure none).bind haddressed
  | some t => exact (tableAt_lawful t).bind fun _ => (Lawful.pure _).bind haddressed

theorem integer_clear (v : Val) (body : String) : Clear (Routine.integer v body : M F S Int64) := by
  unfold Routine.integer
  split
  · exact .pure _
  · exact violate_clear (by simp)

theorem successor_lawful (v : Val) : Lawful (Routine.successor v : M F S Val) := by
  refine (orFail_lawful fun _ h => (BinOp.apply_ordinary h).isCatchable).bind fun w? => ?_
  split
  · exact .pure _
  · exact fail_lawful rfl

theorem yieldValues_clear (values : List Val) : Clear (yieldValues values : M F S Unit) := by
  intro m v t h
  rw [yieldValues_eq] at h
  split at h
  · cases h
  · split at h <;> cases h

theorem resolve_lawful (window : View) (target : Val) (limit : Nat) :
    Lawful (resolve window target limit : M F S (FnId × View)) := by
  induction limit generalizing window target with
  | zero =>
    unfold resolve
    split
    · exact .pure _
    · refine (metamethod_lawful _ .call).bind fun h? => ?_
      cases h? <;> exact fail_lawful rfl
  | succ limit ih =>
    unfold resolve
    split
    · exact .pure _
    · refine (metamethod_lawful _ .call).bind fun h? => ?_
      cases h? with
      | none => exact fail_lawful rfl
      | some h => exact (record_lawful _).bind fun _ => (onStack_lawful _).bind fun w => ih w h

namespace Base

variable (v : View)

theorem assert_lawful : Lawful (assert v : M F S Unit) := by
  refine (checkAny_lawful v 1 _).bind fun u => ?_
  split
  · exact (valuesFrom_lawful v 0).bind giveAll_lawful
  · refine (arg_lawful v 2).bind fun u => ?_
    split <;> exact fail_lawful rfl

theorem select_lawful : Lawful (select v : M F S Unit) := by
  have hrest : ∀ skip, Lawful (do giveAll (← valuesFrom v (1 + skip)) : M F S Unit) :=
    fun skip => (valuesFrom_lawful v _).bind giveAll_lawful
  refine (arg_lawful v 1).bind fun u => ?_
  split
  · exact giveAll_lawful _
  · refine (checkInt_lawful v 1 _).bind fun n => ?_
    dsimp only
    split
    · split
      · exact (fail_lawful rfl).bind hrest
      · exact hrest _
    · split
      · exact (fail_lawful rfl).bind hrest
      · exact hrest _

theorem rawlen_lawful : Lawful (rawlen v : M F S Unit) := by
  refine (arg_lawful v 1).bind fun u => ?_
  split
  · exact (tableAt_lawful _).bind fun _ => giveAll_lawful _
  · exact giveAll_lawful _
  · exact fail_lawful rfl

theorem getmetatable_lawful : Lawful (getmetatable v : M F S Unit) := by
  refine (checkAny_lawful v 1 _).bind fun u => (metatableOf_lawful u).bind fun t? => ?_
  split
  · exact giveAll_lawful _
  · exact (tableAt_lawful _).bind fun _ => giveAll_lawful _

theorem setmetatable_lawful : Lawful (setmetatable v : M F S Unit) := by
  refine (checkTable_lawful v 1 _).bind fun t => (optTable_lawful v 2 _).bind fun next =>
    (tableAt_lawful t).bind fun table => ?_
  have hset : Lawful (do setMetatable t next; give (.table t) : M F S Unit) :=
    Lawful.bind ((note_lawful _).bind fun _ => onHeap_lawful _) fun _ => giveAll_lawful _
  have hrest : ∀ guarded : Bool, Lawful (do
      if guarded then fail (.user (.str "cannot change a protected metatable"))
      setMetatable t next
      give (.table t) : M F S Unit) := by
    intro guarded
    cases guarded
    · exact hset
    · exact (fail_lawful rfl).bind fun _ => hset
  dsimp only
  split
  · exact (tableAt_lawful _).bind fun _ => (Lawful.pure _).bind hrest
  · exact (Lawful.pure _).bind hrest

end Base

namespace Debug

variable [HostFunction F] (v : View)

theorem upvalueAt_lawful (f : FnId) (n : Int64) :
    Lawful (upvalueAt f n : M F S (Option (String × CellId))) := by
  unfold upvalueAt
  split
  · exact .pure _
  · exact get_lawful.bind fun _ => .pure _

theorem checkUpvalue_lawful (n : Nat) (function : String) :
    Lawful (checkUpvalue v n function : M F S (FnId × Nat × CellId)) := by
  refine (checkFunction_lawful v n _).bind fun f => (checkInt_lawful v _ _).bind fun i =>
    (upvalueAt_lawful f i).bind fun u => ?_
  split
  · exact .pure _
  · exact fail_lawful rfl

end Debug

/-- **Native functions.** Those of the standard library that make no request end early at most with
a fault that a program can catch. -/
theorem runBuiltin_lawful [HostBody F S] (P : Perform F S) {b : Builtin} (hb : b.isPlain)
    (hstandard : b.isStandard) (v : View) : Lawful (runBuiltin P b v) := by
  cases b with
  | assert => exact Base.assert_lawful v
  | error =>
    exact (optInt_lawful v 2 _ _).bind fun _ => (arg_lawful v 1).bind fun _ => fail_lawful rfl
  | select => exact Base.select_lawful v
  | type => exact (checkAny_lawful v 1 _).bind fun _ => giveAll_lawful _
  | rawequal =>
    exact (checkAny_lawful v 1 _).bind fun _ => (checkAny_lawful v 2 _).bind fun _ =>
      giveAll_lawful _
  | rawget =>
    exact (checkTable_lawful v 1 _).bind fun _ => (arg_lawful v 2).bind fun _ =>
      (tableAt_lawful _).bind fun _ => giveAll_lawful _
  | rawset =>
    exact (checkTable_lawful v 1 _).bind fun _ => (checkAny_lawful v 2 _).bind fun _ =>
      (arg_lawful v 3).bind fun _ => (setTable_lawful _ _ _).bind fun _ => giveAll_lawful _
  | rawlen => exact Base.rawlen_lawful v
  | getmetatable => exact Base.getmetatable_lawful v
  | setmetatable => exact Base.setmetatable_lawful v
  | rawGetmetatable =>
    refine (arg_lawful v 1).bind fun u => (metatableOf_lawful u).bind fun t? => ?_
    split <;> exact giveAll_lawful _
  | rawSetmetatable =>
    refine (arg_lawful v 1).bind fun u => (optTable_lawful v 2 _).bind fun next => ?_
    split
    · exact Lawful.bind ((note_lawful _).bind fun _ => onHeap_lawful _) fun _ => giveAll_lawful _
    · exact Lawful.bind (.of_ok fun _ => ⟨_, _, rfl⟩) fun _ => giveAll_lawful _
  | getupvalue =>
    refine (checkFunction_lawful v 1 _).bind fun f => (checkInt_lawful v 2 _).bind fun n =>
      (Debug.upvalueAt_lawful f n).bind fun u => ?_
    split
    · exact Lawful.bind (get_lawful.bind fun _ => .pure _) fun _ => giveAll_lawful _
    · exact giveAll_lawful _
  | setupvalue =>
    refine (checkFunction_lawful v 1 _).bind fun f => (checkInt_lawful v 2 _).bind fun n =>
      (Debug.upvalueAt_lawful f n).bind fun u => ?_
    split
    · exact (arg_lawful v 3).bind fun _ => Lawful.bind
        ((note_lawful _).bind fun _ => onHeap_lawful _) fun _ => giveAll_lawful _
    · exact giveAll_lawful _
  | upvalueid => exact (Debug.checkUpvalue_lawful v 1 _).bind fun _ => giveAll_lawful _
  | upvaluejoin =>
    refine (Debug.checkUpvalue_lawful v 1 _).bind fun a => (Debug.checkUpvalue_lawful v 3 _).bind
      fun c => Lawful.bind (get_lawful.bind fun _ => .pure _) fun f => ?_
    split
    · exact (onHeap_lawful _).bind fun _ => giveAll_lawful _
    · exact (fail_lawful rfl).bind fun _ => giveAll_lawful _
  | add3 | counterAdd => cases hstandard
  | tostring | print | create | resume | yield | status | running | isyieldable | wrap => cases hb

/-- They read no channel, but for that of a request of their own. -/
theorem runBuiltin_plain_clear [HostBody F S] (P : Perform F S) (b : Builtin) (hb : b.isPlain) (v : View) :
    Clear (runBuiltin P b v) := by
  by_cases hstandard : b.isStandard
  · exact (runBuiltin_lawful P hb hstandard v).clear
  · cases b with
    | add3 =>
      have hget : ∀ i, Lawful (valueAt v i : M F S Val) := fun i => get_lawful.bind fun _ => .pure _
      exact .after (hget 0) fun _ => (integer_clear _ _).bind fun _ => .after (hget 1) fun _ =>
        (integer_clear _ _).bind fun _ => (orOverflow_clear _).bind fun _ => .after (hget 2) fun _ =>
        (integer_clear _ _).bind fun _ => (orOverflow_clear _).bind fun _ => (giveAll_lawful _).clear
    | counterAdd =>
      exact .after (checkInt_lawful v 2 _) fun _ => (orOverflow_clear _).bind fun _ =>
        (giveAll_lawful _).clear
    | _ => exact (hstandard rfl).elim

end Natives

/-! ## Library functions that make requests -/

section Library

variable {F S : Type} [HostBody F S] {P : Perform F S} (hP : Settles P)

include hP

theorem display_clear (w : View) (v : Val) : Clear (Base.display P w v) := by
  refine .after (metamethod_lawful v _) fun h? => ?_
  cases h? with
  | some handler =>
    refine .after (onStack_lawful _) fun w m => ?_
    refine ClearAt.bind (callNonresumable_clear hP w handler _ m) fun _ t ht => ?_
    refine ClearAt.bind (result_clear (callNonresumable_settled hP ht) 0) fun u t _ => ?_
    cases u with
    | str s => exact Clear.pure s t
    | _ => exact (fail_lawful rfl).clear t
  | none => exact (named_lawful v).clear

theorem line_clear (w : View) (values : List Val) : Clear (Base.line P w values) := by
  induction values with
  | nil => exact .pure []
  | cons v values ih => exact (display_clear hP w v).bind fun _ => ih.bind fun _ => .pure _

omit [HostBody F S] in
theorem handled_clear (w : View) (handler v : Val) : Clear (Base.handled P w handler v) := by
  refine .after (onStack_lawful _) fun w m => ?_
  refine attempt_clear (callNonresumable_clear hP w handler _ m) (fun _ t ht => ?_) fun e he => ?_
  · exact result_clear (callNonresumable_settled hP ht) 0
  · cases e with
    | fault f => exact .ite (.pure _) (.throw he)
    | _ => exact .throw he

/-- A request under protection, and what is made of its ending. -/
theorem guarded_clear (function : FnId) (p : Protection) (w : View) (handler : Val)
    (request : Request) :
    Clear (attempt (P request) >>= Base.settle P function p w handler) := by
  intro m
  refine attempt_clear (hP.clear request m) (fun _ t ht => ?_) fun e he => ?_
  · exact .of_ok (prependResult_ok (hP.settled ht) _)
  · cases e with
    | suspend s =>
      refine fun t => ?_
      obtain ⟨x, hx⟩ := suspendWith_ok function 1 ⟨[], 0, [handler]⟩ s t
      intro v u h
      cases hx.symm.trans h
    | fault f =>
      refine .ite (.after get_lawful fun m => .after (record_lawful _) fun _ => ?_) (.throw he)
      cases p with
      | plain => exact (giveAll_lawful _).clear
      | handler => exact (handled_clear hP w handler f.value).bind fun _ => (giveAll_lawful _).clear
    | overflow | exhausted => exact .throw he

theorem protectedCall_clear (function : FnId) (p : Protection) (w : View) :
    Clear (Base.protectedCall P function p w) := by
  refine .after (checkAny_lawful w 1 _) fun target => ?_
  cases p with
  | plain => exact guarded_clear hP function .plain _ _ _
  | handler =>
    exact .after (checkAny_lawful w 2 _) fun handler => guarded_clear hP function .handler _ _ _

theorem resumeProtected_clear (function : FnId) (p : Protection) (w : View) (index : Nat)
    (saved : Saved) (inner : List Link) (values : List Val) :
    Clear (Base.resumeProtected P function p w index saved inner values) := by
  have hrest := guarded_clear hP function p w (saved.varargs.headD .nil) (.replay inner values w)
  exact .ite (Clear.bind (violate_clear (by simp)) fun _ => hrest) hrest

theorem runBuiltin_clear (b : Builtin) (v : View) : Clear (runBuiltin P b v) := by
  by_cases hb : b.isPlain
  · exact runBuiltin_plain_clear P b hb v
  · cases b with
    | tostring =>
      exact .after (checkAny_lawful v 1 _) fun u => (display_clear hP _ u).bind fun _ =>
        (giveAll_lawful _).clear
    | print =>
      exact .after (valuesFrom_lawful v 0) fun values => (line_clear hP _ values).bind fun _ =>
        .after (.of_ok fun _ => ⟨_, _, rfl⟩) fun _ => (giveAll_lawful _).clear
    | create =>
      exact ((checkFunction_lawful v 1 _).bind fun _ => (onHeap_lawful _).bind fun _ =>
        giveAll_lawful _).clear
    | resume =>
      refine .after (checkCoroutine_lawful v 1 _) fun co => .after (valuesFrom_lawful v 1)
        fun values m => ?_
      refine attempt_clear (resume_clear hP _ co values m) (fun _ t ht => ?_) fun e he => ?_
      · exact .of_ok (prependResult_ok (resume_settled hP ht) _)
      · cases e with
        | fault f => exact .ite (giveAll_lawful _).clear (.throw he)
        | _ => exact .throw he
    | yield => exact .after (valuesFrom_lawful v 0) yieldValues_clear
    | status =>
      exact ((checkCoroutine_lawful v 1 _).bind fun _ => Lawful.bind (get_lawful.bind fun _ =>
        .pure _) fun _ => giveAll_lawful _).clear
    | running =>
      refine .after get_lawful fun m => ?_
      split <;> exact (giveAll_lawful _).clear
    | isyieldable => exact .after (get_lawful.bind fun _ => .pure _) fun _ => (giveAll_lawful _).clear
    | wrap =>
      exact ((checkFunction_lawful v 1 _).bind fun _ => (onHeap_lawful _).bind fun _ =>
        Lawful.bind ((onHeap_lawful _).bind fun _ => .pure _) fun _ => giveAll_lawful _).clear
    | _ => exact (hb rfl).elim

end Library

end ScriptCore
