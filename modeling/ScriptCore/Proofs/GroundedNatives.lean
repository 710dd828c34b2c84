import ScriptCore.Proofs.Grounded

/-!
# Native functions and captured variables

The native functions that neither call nor resume keep track of the captured variables. All but
those of the debug library leave them alone. The debug library reads a function and the index of a
variable among its arguments (`View.subject?`): a function that it refuses changes nothing at all,
and one that it carries out is an operation of the store.
-/

namespace ScriptCore

open Machine

variable {args : View}

/-! ## Arguments -/

/-- The argument at a position, nil where there is none. -/
def View.argument (args : View) (m : Machine Empty PUnit) (n : Nat) : Val :=
  if n = 0 ∨ args.top < n then .nil else args.get m.thread.stack m.heap.cells (n - 1)

/-- The function that a value is. -/
def Val.function? : Val → Option FnId
  | .fn f => some f
  | _ => none

/-- The function and the index, from 0 on, of the variable that two arguments name. -/
def View.subject? (args : View) (m : Machine Empty PUnit) (n : Nat) : Option (FnId × Int) := do
  return (← (args.argument m n).function?, (← (args.argument m (n + 1)).toInt?).toInt - 1)

namespace Args

variable {m : Machine Empty PUnit} {α : Type}

theorem arg_eq (n : Nat) : arg args n m = .ok (args.argument m n) m := by
  unfold arg View.argument
  split <;> rfl

theorem mismatch_eq (args : View) (n : Nat) (function what : String) :
    ∃ f, (mismatch args n function what : M Empty PUnit α) m = .error (.fault f) m := by
  unfold mismatch
  split
  · exact ⟨_, rfl⟩
  · exact ⟨_, bind_of_ok (arg_eq n)⟩

theorem checkFunction_eq {n : Nat} (function : String) {f : FnId}
    (h : (args.argument m n).function? = some f) : checkFunction args n function m = .ok f m := by
  refine (bind_of_ok (arg_eq n)).trans ?_
  cases hv : args.argument m n <;> rw [hv] at h <;> cases h
  rfl

theorem checkFunction_refused {n : Nat} (function : String)
    (h : (args.argument m n).function? = none) :
    ∃ f, checkFunction args n function m = .error (.fault f) m := by
  unfold checkFunction
  rw [bind_of_ok (arg_eq n)]
  cases hv : args.argument m n <;> rw [hv] at h
  case fn => cases h
  all_goals exact mismatch_eq args n function "function"

theorem checkInt_eq {n : Nat} (function : String) {i : Int64}
    (h : (args.argument m n).toInt? = some i) : checkInt args n function m = .ok i m := by
  unfold checkInt
  rw [bind_of_ok (arg_eq n)]
  cases hv : args.argument m n <;> rw [hv] at h
  case int => cases h; rfl
  case float x =>
    dsimp only [Val.toInt?] at h ⊢
    rw [h]
    rfl
  all_goals cases h

theorem checkInt_refused {n : Nat} (function : String) (h : (args.argument m n).toInt? = none) :
    ∃ f, checkInt args n function m = .error (.fault f) m := by
  unfold checkInt
  rw [bind_of_ok (arg_eq n)]
  cases hv : args.argument m n <;> rw [hv] at h
  case int => cases h
  case float x =>
    dsimp only [Val.toInt?] at h ⊢
    rw [h]
    exact ⟨_, rfl⟩
  all_goals exact mismatch_eq args n function "number"

theorem arg_tracks (n : Nat) : Tracking (arg args n : M Empty PUnit Val) := fun m hm => by
  rw [arg_eq]
  exact Moves.refl hm

theorem mismatch_tracks (n : Nat) (function what : String) :
    Tracking (mismatch args n function what : M Empty PUnit α) := fun m hm => by
  obtain ⟨f, hf⟩ := mismatch_eq (m := m) (α := α) args n function what
  rw [hf]
  exact fail_tracks f m hm

theorem checkAny_tracks (n : Nat) (function : String) :
    Tracking (checkAny args n function : M Empty PUnit Val) :=
  Tracks.guard (k := fun _ => arg args n) (fail_tracks _) (arg_tracks n)

theorem checkTable_tracks (n : Nat) (function : String) :
    Tracking (checkTable args n function : M Empty PUnit TableId) :=
  (arg_tracks n).bind fun v => by
    cases v with
    | table t => exact .pure t
    | nil | bool | int | float | str | fn | co => exact mismatch_tracks n function _

theorem checkFunction_tracks (n : Nat) (function : String) :
    Tracking (checkFunction args n function : M Empty PUnit FnId) :=
  (arg_tracks n).bind fun v => by
    cases v with
    | fn f => exact .pure f
    | nil | bool | int | float | str | table | co => exact mismatch_tracks n function _

theorem checkCoroutine_tracks (n : Nat) (function : String) :
    Tracking (checkCoroutine args n function : M Empty PUnit CoId) :=
  (arg_tracks n).bind fun v => by
    cases v with
    | co c => exact .pure c
    | nil | bool | int | float | str | table | fn => exact mismatch_tracks n function _

theorem checkInt_tracks (n : Nat) (function : String) :
    Tracking (checkInt args n function : M Empty PUnit Int64) :=
  (arg_tracks n).bind fun v => by
    cases v with
    | int i => exact .pure i
    | float x =>
      dsimp only
      split
      · exact .pure _
      · exact fail_tracks _
    | nil | bool | str | table | fn | co => exact mismatch_tracks n function _

theorem optInt_tracks (n : Nat) (function : String) (default : Int64) :
    Tracking (optInt args n function default : M Empty PUnit Int64) :=
  (arg_tracks n).bind fun _ => .ite (.pure _) (checkInt_tracks n function)

theorem optTable_tracks (n : Nat) (function : String) :
    Tracking (optTable args n function : M Empty PUnit (Option TableId)) :=
  (arg_tracks n).bind fun v => by
    cases v with
    | nil => exact .pure none
    | table t => exact .pure (some t)
    | bool | int | float | str | fn | co => exact mismatch_tracks n function _

end Args

open Args

/-! ## The base library -/

namespace Base

theorem assert_tracks : Tracking (assert args : M Empty PUnit Unit) :=
  (checkAny_tracks 1 "assert").bind fun _ =>
    .ite ((valuesFrom_tracks args 0).bind fun _ => giveAll_tracks _)
      ((arg_tracks 2).bind fun v => by cases v <;> exact fail_tracks _)

theorem error_tracks : Tracking (error args : M Empty PUnit Unit) :=
  (optInt_tracks 2 "error" 1).bind fun _ => (arg_tracks 1).bind fun _ => fail_tracks _

theorem select_tracks : Tracking (select args : M Empty PUnit Unit) := by
  have hrest : ∀ skip, Tracking (do giveAll (← valuesFrom args (1 + skip)) : M Empty PUnit Unit) :=
    fun skip => (valuesFrom_tracks args _).bind fun _ => giveAll_tracks _
  refine (arg_tracks 1).bind fun _ => .ite (give_tracks _) ?_
  refine (checkInt_tracks 1 "select").bind fun n => ?_
  dsimp only
  split
  · split
    · exact (fail_tracks _).bind hrest
    · exact (Tracks.pure _).bind hrest
  · split
    · exact (fail_tracks _).bind hrest
    · exact (Tracks.pure _).bind hrest

theorem type_tracks : Tracking (type args : M Empty PUnit Unit) :=
  (checkAny_tracks 1 "type").bind fun _ => give_tracks _

theorem rawequal_tracks : Tracking (rawequal args : M Empty PUnit Unit) :=
  (checkAny_tracks 1 "rawequal").bind fun _ => (checkAny_tracks 2 "rawequal").bind fun _ =>
    give_tracks _

theorem rawget_tracks : Tracking (rawget args : M Empty PUnit Unit) :=
  (checkTable_tracks 1 "rawget").bind fun t => (arg_tracks 2).bind fun _ =>
    (tableAt_tracks t).bind fun _ => give_tracks _

theorem rawset_tracks : Tracking (rawset args : M Empty PUnit Unit) :=
  (checkTable_tracks 1 "rawset").bind fun _ => (checkAny_tracks 2 "rawset").bind fun _ =>
    (arg_tracks 3).bind fun _ => (setTable_tracks _ _ _).bind fun _ => give_tracks _

theorem rawlen_tracks : Tracking (rawlen args : M Empty PUnit Unit) :=
  (arg_tracks 1).bind fun v => by
    cases v with
    | table t => exact (tableAt_tracks t).bind fun _ => give_tracks _
    | str s => exact give_tracks _
    | nil | bool | int | float | fn | co => exact fail_tracks _

theorem getmetatable_tracks : Tracking (getmetatable args : M Empty PUnit Unit) :=
  (checkAny_tracks 1 "getmetatable").bind fun v => (metatableOf_tracks v).bind fun t? => by
    cases t? with
    | none => exact give_tracks _
    | some t => exact (tableAt_tracks t).bind fun _ => give_tracks _

theorem setmetatable_tracks : Tracking (setmetatable args : M Empty PUnit Unit) := by
  refine (checkTable_tracks 1 "setmetatable").bind fun t =>
    (optTable_tracks 2 "setmetatable").bind fun next => (tableAt_tracks t).bind fun table => ?_
  have hrest : ∀ guarded : Bool, Tracking (do
      if guarded then fail (.user (.str "cannot change a protected metatable"))
      setMetatable t next
      give (.table t) : M Empty PUnit Unit) := fun _ =>
    .guard (fail_tracks _) ((setMetatable_tracks t next).bind fun _ => give_tracks _)
  dsimp only
  split
  · exact (tableAt_tracks _).bind fun _ => (Tracks.pure _).bind hrest
  · exact (Tracks.pure _).bind hrest

end Base

/-! ## Hand-written bodies -/

namespace Routine

theorem integer_tracks (v : Val) (body : String) : Tracking (integer v body : M Empty PUnit Int64) := by
  unfold integer
  split
  · exact .pure _
  · exact violate_tracks _

theorem add3_tracks : Tracking (add3 args : M Empty PUnit Unit) :=
  (valueAt_tracks args 0).bind fun _ => (integer_tracks _ _).bind fun _ =>
    (valueAt_tracks args 1).bind fun _ => (integer_tracks _ _).bind fun _ =>
      (orOverflow_tracks _).bind fun _ => (valueAt_tracks args 2).bind fun _ =>
        (integer_tracks _ _).bind fun _ => (orOverflow_tracks _).bind fun _ => give_tracks _

theorem counterAdd_tracks : Tracking (counterAdd args : M Empty PUnit Unit) :=
  (checkInt_tracks 2 "__add").bind fun _ => (orOverflow_tracks _).bind fun _ => give_tracks _

end Routine

/-! ## Coroutines -/

namespace Coroutines

theorem create_tracks : Tracking (create args : M Empty PUnit Unit) :=
  (checkFunction_tracks 1 "create").bind fun _ => (newCoroutine_tracks _).bind fun _ => give_tracks _

theorem yield_tracks : Tracking (yield args : M Empty PUnit Unit) :=
  (valuesFrom_tracks args 0).bind fun _ => yieldValues_tracks _

theorem status_tracks : Tracking (status args : M Empty PUnit Unit) :=
  (checkCoroutine_tracks 1 "status").bind fun _ => Tracks.bind (Tracks.get.bind fun _ => .pure _) fun _ => give_tracks _

theorem running_tracks : Tracking (running : M Empty PUnit Unit) :=
  Tracks.get.bind fun _ => by
    split <;> exact giveAll_tracks _

theorem isyieldable_tracks : Tracking (isyieldable : M Empty PUnit Unit) :=
  Tracks.bind (Tracks.get.bind fun _ => .pure _) fun _ => give_tracks _

/-- A wrapped coroutine has no captured variables. -/
theorem wrap_tracks : Tracking (wrap args : M Empty PUnit Unit) :=
  (checkFunction_tracks 1 "wrap").bind fun _ => (newCoroutine_tracks _).bind fun co _ hm =>
    (newFunctionVal_tracked hm (c := .wrapped co) trivial).bind fun _ _ _ ht =>
      give_tracks _ _ ht.grounded

end Coroutines

/-! ## The debug library -/

namespace Debug

variable {m : Machine Empty PUnit} {f g : FnId} {i j : Int}

theorem getmetatable_tracks : Tracking (getmetatable args : M Empty PUnit Unit) :=
  (arg_tracks 1).bind fun v => (metatableOf_tracks v).bind fun t? => by
    cases t? with
    | none => exact give_tracks _
    | some t => exact give_tracks _

theorem setmetatable_tracks : Tracking (setmetatable args : M Empty PUnit Unit) :=
  (arg_tracks 1).bind fun v => (optTable_tracks 2 "setmetatable").bind fun next => by
    cases v with
    | table t => exact (setMetatable_tracks t next).bind fun _ => give_tracks _
    | nil | bool | int | float | str | fn | co =>
      exact (setTypeMetatable_tracks _ next).bind fun _ => give_tracks _

/-- Numbers of variables count from 1. -/
theorem upvalueAt_eq (f : FnId) (n : Int64) :
    upvalueAt f n m = .ok (m.heap.variables.find f (n.toInt - 1)) m := by
  unfold upvalueAt Variables.find
  by_cases hn : n.toInt < 1
  · rw [if_pos hn, if_pos (by omega)]
    rfl
  · rw [if_neg hn, if_neg (by omega)]
    rfl

/-- The two arguments that name a variable. -/
theorem subject?_some {n : Nat} (h : args.subject? m n = some (f, i)) :
    (args.argument m n).function? = some f ∧
      ∃ k, (args.argument m (n + 1)).toInt? = some k ∧ k.toInt - 1 = i := by
  unfold View.subject? at h
  cases hf : (args.argument m n).function? with
  | none => simp [hf] at h
  | some f' =>
    cases hk : (args.argument m (n + 1)).toInt? with
    | none => simp [hf, hk] at h
    | some k =>
      obtain ⟨rfl, rfl⟩ : f' = f ∧ k.toInt - 1 = i := by simpa [hf, hk] using h
      exact ⟨rfl, k, rfl, rfl⟩

theorem subject?_none {n : Nat} (h : args.subject? m n = none) :
    (args.argument m n).function? = none ∨ ∃ f, (args.argument m n).function? = some f ∧
      (args.argument m (n + 1)).toInt? = none := by
  unfold View.subject? at h
  cases hf : (args.argument m n).function? with
  | none => exact .inl rfl
  | some f =>
    cases hk : (args.argument m (n + 1)).toInt? with
    | none => exact .inr ⟨f, rfl, rfl⟩
    | some k => simp [hf, hk] at h

/-- A variable is named, or the arguments are refused. -/
theorem named {α : Type} {n : Nat} (function : String)
    (onFound : FnId → Int64 → String → CellId → M Empty PUnit α) (otherwise : M Empty PUnit α) :
    (args.subject? m n = none ∧ ∃ e, (do
      let f ← checkFunction args n function
      let i ← checkInt args (n + 1) function
      match ← upvalueAt f i with
      | some (name, cell) => onFound f i name cell
      | none => otherwise) m = .error (.fault e) m) ∨
    ∃ (f : FnId) (i : Int64), args.subject? m n = some (f, i.toInt - 1) ∧ (do
      let f ← checkFunction args n function
      let i ← checkInt args (n + 1) function
      match ← upvalueAt f i with
      | some (name, cell) => onFound f i name cell
      | none => otherwise) m =
        (match m.heap.variables.find f (i.toInt - 1) with
        | some (name, cell) => onFound f i name cell
        | none => otherwise) m := by
  cases h : args.subject? m n with
  | none =>
    refine .inl ⟨rfl, ?_⟩
    obtain hf | ⟨f, hf, hk⟩ := subject?_none h
    · obtain ⟨e, he⟩ := checkFunction_refused function hf
      exact ⟨e, bind_of_error he⟩
    · obtain ⟨e, he⟩ := checkInt_refused function hk
      exact ⟨e, (bind_of_ok (checkFunction_eq function hf)).trans (bind_of_error he)⟩
  | some x =>
    obtain ⟨f, i⟩ := x
    obtain ⟨hf, n', hk, rfl⟩ := subject?_some h
    exact .inr ⟨f, n', rfl, (bind_of_ok (checkFunction_eq function hf)).trans
      ((bind_of_ok (checkInt_eq function hk)).trans (bind_of_ok (upvalueAt_eq f n')))⟩

/-- What the checks of a variable let through. -/
theorem checkUpvalue_eq {n : Nat} (function : String) {x : String × CellId}
    (h : args.subject? m n = some (f, i)) (hx : m.heap.variables.find f i = some x) :
    checkUpvalue args n function m = .ok (f, i.toNat, x.2) m := by
  obtain ⟨hnone, -⟩ | ⟨g, k, hsome, hrun⟩ := named (m := m) (n := n) function
    (fun f i _ cell => return (f, (i.toInt - 1).toNat, cell))
    (fail (.argument (n + 1) function .noUpvalue))
  · rw [hnone] at h
    cases h
  · rw [hsome] at h
    cases h
    rw [hx] at hrun
    exact hrun

theorem checkUpvalue_refused (args : View) {n : Nat} (function : String)
    (h : ∀ f i, args.subject? m n = some (f, i) → m.heap.variables.find f i = none) :
    ∃ e, checkUpvalue args n function m = .error (.fault e) m := by
  obtain ⟨-, hrun⟩ | ⟨f, k, hsome, hrun⟩ := named (m := m) (n := n) function
    (fun f i _ cell => return (f, (i.toInt - 1).toNat, cell))
    (fail (.argument (n + 1) function .noUpvalue))
  · exact hrun
  · rw [h f _ hsome] at hrun
    exact ⟨_, hrun⟩

theorem checkUpvalue_ends (args : View) (n : Nat) (function : String) :
    (∃ e, checkUpvalue args n function m = .error (.fault e) m) ∨
    ∃ f i x, args.subject? m n = some (f, i) ∧ m.heap.variables.find f i = some x ∧
      checkUpvalue args n function m = .ok (f, i.toNat, x.2) m := by
  cases h : args.subject? m n with
  | none => exact .inl (checkUpvalue_refused args function fun f i hi => by rw [h] at hi; cases hi)
  | some y =>
    obtain ⟨f, i⟩ := y
    cases hx : m.heap.variables.find f i with
    | none =>
      exact .inl (checkUpvalue_refused args function fun g k hk => by rw [h] at hk; cases hk; exact hx)
    | some x => exact .inr ⟨f, i, x, rfl, hx, checkUpvalue_eq function h hx⟩

theorem upvalueAt_tracks (f : FnId) (n : Int64) :
    Tracking (upvalueAt f n : M Empty PUnit (Option (String × CellId))) := fun m hm => by
  rw [upvalueAt_eq]
  exact Moves.refl hm

theorem checkUpvalue_tracks (n : Nat) (function : String) :
    Tracking (checkUpvalue args n function : M Empty PUnit (FnId × Nat × CellId)) := fun m hm => by
  obtain ⟨e, he⟩ | ⟨f, i, x, -, -, hx⟩ := checkUpvalue_ends (m := m) args n function
  · rw [he]
    exact fail_tracks e m hm
  · rw [hx]
    exact Moves.refl hm

theorem getupvalue_tracks : Tracking (getupvalue args : M Empty PUnit Unit) :=
  (checkFunction_tracks 1 "getupvalue").bind fun f => (checkInt_tracks 2 "getupvalue").bind fun n =>
    (upvalueAt_tracks f n).bind fun x? => by
      cases x? with
      | some x => exact (cellAt_tracks x.2).bind fun _ => giveAll_tracks _
      | none => exact giveAll_tracks _

theorem setupvalue_tracks : Tracking (setupvalue args : M Empty PUnit Unit) :=
  (checkFunction_tracks 1 "setupvalue").bind fun f => (checkInt_tracks 2 "setupvalue").bind fun n =>
    (upvalueAt_tracks f n).bind fun x? => by
      cases x? with
      | some x =>
        exact (arg_tracks 3).bind fun _ => (putCell_tracks x.2 _).bind fun _ => give_tracks _
      | none => exact giveAll_tracks _

theorem upvalueid_tracks : Tracking (upvalueid args : M Empty PUnit Unit) :=
  (checkUpvalue_tracks 1 "upvalueid").bind fun _ => give_tracks _

/-- A join that is carried out. -/
theorem upvaluejoin_eq (hm : m.Grounded) {x y : String × CellId}
    (hf : args.subject? m 1 = some (f, i)) (hx : m.heap.variables.find f i = some x)
    (hg : args.subject? m 3 = some (g, j)) (hy : m.heap.variables.find g j = some y) :
    ∃ t, upvaluejoin args m = giveAll [] t ∧ m.Moves t ∧
      t.heap.variables = m.heap.variables.rebound f i.toNat (x.1, y.2) := by
  obtain ⟨c, hc, hmoves, hvariables⟩ := moves_join hm hx hy
  refine ⟨_, ?_, hmoves, hvariables⟩
  refine (bind_of_ok (checkUpvalue_eq "upvaluejoin" hf hx)).trans ?_
  refine (bind_of_ok (checkUpvalue_eq "upvaluejoin" hg hy)).trans ?_
  refine (bind_of_ok (show functionAt f m = .ok (m.heap.function f) m from rfl)).trans ?_
  dsimp only
  rw [hc]
  rfl

/-- A join that is refused. -/
theorem upvaluejoin_refused (h : ¬ ∃ f i x g j y,
      (args.subject? m 1 = some (f, i) ∧ m.heap.variables.find f i = some x) ∧
      args.subject? m 3 = some (g, j) ∧ m.heap.variables.find g j = some y) :
    ∃ e, upvaluejoin args m = .error (.fault e) m := by
  obtain ⟨e, he⟩ | ⟨f, i, x, hf, hx, hcheck⟩ :=
    checkUpvalue_ends (m := m) args 1 "upvaluejoin"
  · exact ⟨e, bind_of_error he⟩
  · obtain ⟨e, he⟩ | ⟨g, j, y, hg, hy, -⟩ :=
      checkUpvalue_ends (m := m) args 3 "upvaluejoin"
    · exact ⟨e, (bind_of_ok hcheck).trans (bind_of_error he)⟩
    · exact (h ⟨f, i, x, g, j, y, ⟨hf, hx⟩, hg, hy⟩).elim

theorem upvaluejoin_tracks : Tracking (upvaluejoin args : M Empty PUnit Unit) := fun m hm => by
  by_cases h : ∃ f i x g j y,
      (args.subject? m 1 = some (f, i) ∧ m.heap.variables.find f i = some x) ∧
      args.subject? m 3 = some (g, j) ∧ m.heap.variables.find g j = some y
  · obtain ⟨f, i, x, g, j, y, ⟨hf, hx⟩, hg, hy⟩ := h
    obtain ⟨t, ht, hmoves, -⟩ := upvaluejoin_eq (m := m) hm hf hx hg hy
    rw [ht]
    exact (giveAll_tracks [] t hmoves.grounded).trans hmoves
  · obtain ⟨e, he⟩ := upvaluejoin_refused h
    rw [he]
    exact fail_tracks e m hm

end Debug

/-! ## All of them -/

/-- A plain native function keeps track of the captured variables. -/
theorem plain_tracks (P : Perform Empty PUnit) {b : Builtin} (hb : b.isPlain) :
    Tracking (runBuiltin P b args) := by
  cases b with
  | assert => exact Base.assert_tracks
  | error => exact Base.error_tracks
  | select => exact Base.select_tracks
  | type => exact Base.type_tracks
  | rawequal => exact Base.rawequal_tracks
  | rawget => exact Base.rawget_tracks
  | rawset => exact Base.rawset_tracks
  | rawlen => exact Base.rawlen_tracks
  | getmetatable => exact Base.getmetatable_tracks
  | setmetatable => exact Base.setmetatable_tracks
  | rawGetmetatable => exact Debug.getmetatable_tracks
  | rawSetmetatable => exact Debug.setmetatable_tracks
  | getupvalue => exact Debug.getupvalue_tracks
  | setupvalue => exact Debug.setupvalue_tracks
  | upvalueid => exact Debug.upvalueid_tracks
  | upvaluejoin => exact Debug.upvaluejoin_tracks
  | add3 => exact Routine.add3_tracks
  | counterAdd => exact Routine.counterAdd_tracks
  | tostring | print | create | resume | yield | status | running | isyieldable | wrap =>
    cases hb

end ScriptCore
