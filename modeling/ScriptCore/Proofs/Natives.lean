import ScriptCore.Proofs.InStep

/-!
# Native functions run in step

A native function reads its arguments, the objects and the channel, and leaves the stack and the
counters alone. So on windows with equal live slots it ends in the same way on both sides
(`runBuiltin_answers`). The functions that call, resume, create or inspect a coroutine are not
among these.
-/

namespace ScriptCore

open Machine

section Library

variable {F S : Type} [HostFunction F] {R : Machine F S → Machine F S → Prop}
variable {v w : View} (hR : Closed R) (hS : Shares R v w)

/-! ## Arguments -/

namespace Args

include hR hS

theorem arg_inStep (n : Nat) : InStep R Eq (arg v n : M F S Val) (arg w n) := by
  unfold arg
  rw [← hS.top]
  split
  · exact .pure rfl
  · exact valueAt_inStep hR hS (by omega)

theorem mismatch_inStep {α : Type} (n : Nat) (function what : String) :
    InStep R Eq (mismatch v n function what : M F S α) (mismatch w n function what) := by
  unfold mismatch
  rw [← hS.top]
  dsimp only
  split
  · exact (InStep.pure rfl).seq fun _ => fail_inStep _ (by trivial)
  · exact (arg_inStep hR hS n).seq fun _ => (InStep.pure rfl).seq fun _ => fail_inStep _ (by trivial)

theorem checkAny_inStep (n : Nat) (function : String) :
    InStep R Eq (checkAny v n function : M F S Val) (checkAny w n function) := by
  unfold checkAny
  rw [← hS.top]
  split
  · exact (fail_inStep _ (by trivial)).seq fun _ => arg_inStep hR hS n
  · exact arg_inStep hR hS n

theorem checkTable_inStep (n : Nat) (function : String) :
    InStep R Eq (checkTable v n function : M F S TableId) (checkTable w n function) := by
  refine (arg_inStep hR hS n).seq fun u => ?_
  cases u with
  | table t => exact .pure rfl
  | _ => exact mismatch_inStep hR hS _ _ _

theorem checkFunction_inStep (n : Nat) (function : String) :
    InStep R Eq (checkFunction v n function : M F S FnId) (checkFunction w n function) := by
  refine (arg_inStep hR hS n).seq fun u => ?_
  cases u with
  | fn f => exact .pure rfl
  | _ => exact mismatch_inStep hR hS _ _ _

theorem checkCoroutine_inStep (n : Nat) (function : String) :
    InStep R Eq (checkCoroutine v n function : M F S CoId) (checkCoroutine w n function) := by
  refine (arg_inStep hR hS n).seq fun u => ?_
  cases u with
  | co c => exact .pure rfl
  | _ => exact mismatch_inStep hR hS _ _ _

theorem checkInt_inStep (n : Nat) (function : String) :
    InStep R Eq (checkInt v n function : M F S Int64) (checkInt w n function) := by
  refine (arg_inStep hR hS n).seq fun u => ?_
  cases u with
  | int i => exact .pure rfl
  | float x =>
    dsimp only
    cases x.toInt64? with
    | some i => exact .pure rfl
    | none => exact fail_inStep _ (by trivial)
  | _ => exact mismatch_inStep hR hS _ _ _

theorem optInt_inStep (n : Nat) (function : String) (default : Int64) :
    InStep R Eq (optInt v n function default : M F S Int64) (optInt w n function default) := by
  refine (arg_inStep hR hS n).seq fun u => ?_
  split
  · exact .pure rfl
  · exact checkInt_inStep hR hS n function

theorem optTable_inStep (n : Nat) (function : String) :
    InStep R Eq (optTable v n function : M F S (Option TableId)) (optTable w n function) := by
  refine (arg_inStep hR hS n).seq fun u => ?_
  cases u with
  | nil | table t => exact .pure rfl
  | _ => exact mismatch_inStep hR hS _ _ _

end Args

open Args

/-! ## The base library -/

namespace Base

include hR hS

theorem assert_answers : Answers R (assert v : M F S Unit) (assert w) := by
  refine (checkAny_inStep hR hS _ _).answers fun u => ?_
  split
  · exact (valuesFrom_inStep hR hS 0).answers fun _ => giveAll_answers hR _
  · exact (arg_inStep hR hS 2).answers fun u => by cases u <;> exact fail_answers _ (by trivial)

theorem error_answers : Answers R (error v : M F S Unit) (error w) :=
  (optInt_inStep hR hS _ _ _).answers fun _ => (arg_inStep hR hS _).answers fun _ => fail_answers _ (by trivial)

theorem select_answers : Answers R (select v : M F S Unit) (select w) := by
  unfold select
  rw [← hS.top]
  refine (arg_inStep hR hS 1).answers fun u => ?_
  split
  · exact give_answers hR _
  · have hrest : ∀ skip, Answers R (do giveAll (← valuesFrom v (1 + skip)) : M F S Unit)
        (do giveAll (← valuesFrom w (1 + skip))) :=
      fun skip => (valuesFrom_inStep hR hS _).answers fun _ => giveAll_answers hR _
    refine (checkInt_inStep hR hS _ _).answers fun n => ?_
    dsimp only
    split
    · split
      · exact (fail_inStep _ (by trivial)).answers hrest
      · exact (InStep.pure rfl).answers hrest
    · split
      · exact (fail_inStep _ (by trivial)).answers hrest
      · exact (InStep.pure rfl).answers hrest

theorem type_answers : Answers R (type v : M F S Unit) (type w) :=
  (checkAny_inStep hR hS _ _).answers fun _ => give_answers hR _

theorem rawequal_answers : Answers R (rawequal v : M F S Unit) (rawequal w) :=
  (checkAny_inStep hR hS _ _).answers fun _ => (checkAny_inStep hR hS _ _).answers fun _ =>
    give_answers hR _

theorem rawget_answers : Answers R (rawget v : M F S Unit) (rawget w) :=
  (checkTable_inStep hR hS _ _).answers fun _ => (arg_inStep hR hS _).answers fun _ =>
    (tableAt_inStep hR _).answers fun _ => give_answers hR _

theorem rawset_answers : Answers R (rawset v : M F S Unit) (rawset w) :=
  (checkTable_inStep hR hS _ _).answers fun _ => (checkAny_inStep hR hS _ _).answers fun _ =>
    (arg_inStep hR hS _).answers fun _ => (setTable_inStep hR _ _ _).answers fun _ =>
      give_answers hR _

theorem rawlen_answers : Answers R (rawlen v : M F S Unit) (rawlen w) := by
  refine (arg_inStep hR hS 1).answers fun u => ?_
  cases u with
  | table t => exact (tableAt_inStep hR t).answers fun _ => give_answers hR _
  | str s => exact give_answers hR _
  | _ => exact fail_answers _ (by trivial)

theorem getmetatable_answers : Answers R (getmetatable v : M F S Unit) (getmetatable w) := by
  refine (checkAny_inStep hR hS _ _).answers fun u =>
    (metatableOf_inStep hR u).answers fun t? => ?_
  split
  · exact give_answers hR _
  · exact (tableAt_inStep hR _).answers fun _ => give_answers hR _

theorem setmetatable_answers : Answers R (setmetatable v : M F S Unit) (setmetatable w) := by
  refine (checkTable_inStep hR hS _ _).answers fun t =>
    (optTable_inStep hR hS _ _).answers fun next => (tableAt_inStep hR t).answers fun table => ?_
  have hset : Answers R (do setMetatable t next; give (.table t) : M F S Unit)
      (do setMetatable t next; give (.table t)) :=
    (setMetatable_inStep hR t next).answers fun _ => give_answers hR _
  have hrest : ∀ guarded : Bool, Answers R
      (do
        if guarded then fail (.user (.str "cannot change a protected metatable"))
        setMetatable t next
        give (.table t) : M F S Unit)
      (do
        if guarded then fail (.user (.str "cannot change a protected metatable"))
        setMetatable t next
        give (.table t)) := by
    intro guarded
    cases guarded
    · exact hset
    · exact (fail_inStep _ (by trivial)).answers fun _ => hset
  dsimp only
  split
  · exact (tableAt_inStep hR _).answers fun _ => (InStep.pure rfl).answers hrest
  · exact (InStep.pure rfl).answers hrest

end Base

/-! ## The debug library -/

namespace Debug

include hR

/-- A captured variable is bound to another cell on both sides, or on neither. -/
theorem rebind_answers (f : FnId) (i : Nat) (cell : CellId) (e : Fault) (he : (Unwind.fault e).Own)
    {k l : PUnit → M F S Unit} (hk : ∀ u, Answers R (k u) (l u)) :
    Answers R
      (do
        match (← functionAt f).replaceUpvalue? i cell with
        | some c => putFunction f c >>= k
        | none => fail e >>= k)
      (do
        match (← functionAt f).replaceUpvalue? i cell with
        | some c => putFunction f c >>= l
        | none => fail e >>= l) := by
  intro a b hab
  show SameEnd R (fun _ _ a b => R a b ∧ a.thread.results = b.thread.results ∧
      a.thread.results.Settled)
    ((match (a.heap.function f).replaceUpvalue? i cell with
      | some c => putFunction f c >>= k
      | none => fail e >>= k) a)
    ((match (b.heap.function f).replaceUpvalue? i cell with
      | some c => putFunction f c >>= l
      | none => fail e >>= l) b)
  obtain ⟨hc, hd⟩ | ⟨c, d, hc, hd, hcd⟩ := ((hR.kin hab).functions f).replaceUpvalue? i cell
  · rw [hc, hd]
    exact (fail_inStep e he).answers hk a b hab
  · rw [hc, hd]
    have hput := putFunction_inStep hR f hab (Callable.kept_of_replaceUpvalue? hc)
      (Callable.kept_of_replaceUpvalue? hd) hcd
    exact hk () _ _ hput.2

theorem upvalueAt_inStep (f : FnId) (n : Int64) :
    InStep R Eq (upvalueAt f n : M F S (Option (String × CellId))) (upvalueAt f n) := by
  unfold upvalueAt
  split
  · exact .pure rfl
  · exact (functionAt_inStep hR f).bind fun c d h => .pure (h.upvalue?_eq _)

include hS

theorem checkUpvalue_inStep (n : Nat) (function : String) :
    InStep R Eq (checkUpvalue v n function : M F S (FnId × Nat × CellId))
      (checkUpvalue w n function) := by
  refine (checkFunction_inStep hR hS _ _).seq fun f => (checkInt_inStep hR hS _ _).seq fun n =>
    (upvalueAt_inStep hR f n).seq fun u => ?_
  split
  · exact .pure rfl
  · exact fail_inStep _ (by trivial)

theorem getmetatable_answers : Answers R (getmetatable v : M F S Unit) (getmetatable w) := by
  refine (arg_inStep hR hS 1).answers fun u => (metatableOf_inStep hR u).answers fun t? => ?_
  split <;> exact give_answers hR _

theorem setmetatable_answers : Answers R (setmetatable v : M F S Unit) (setmetatable w) := by
  refine (arg_inStep hR hS 1).answers fun u => (optTable_inStep hR hS _ _).answers fun next => ?_
  split
  · exact (setMetatable_inStep hR _ _).answers fun _ => give_answers hR _
  · exact (setTypeMetatable_inStep hR _ _).answers fun _ => give_answers hR _

theorem getupvalue_answers : Answers R (getupvalue v : M F S Unit) (getupvalue w) := by
  refine (checkFunction_inStep hR hS _ _).answers fun f =>
    (checkInt_inStep hR hS _ _).answers fun n => (upvalueAt_inStep hR f n).answers fun u => ?_
  split
  · exact (cellAt_inStep hR _).answers fun _ => giveAll_answers hR _
  · exact giveAll_answers hR _

theorem setupvalue_answers : Answers R (setupvalue v : M F S Unit) (setupvalue w) := by
  refine (checkFunction_inStep hR hS _ _).answers fun f =>
    (checkInt_inStep hR hS _ _).answers fun n => (upvalueAt_inStep hR f n).answers fun u => ?_
  split
  · exact (arg_inStep hR hS 3).answers fun _ => (putCell_inStep hR _ _).answers fun _ =>
      give_answers hR _
  · exact giveAll_answers hR _

theorem upvalueid_answers : Answers R (upvalueid v : M F S Unit) (upvalueid w) :=
  (checkUpvalue_inStep hR hS _ _).answers fun _ => give_answers hR _

theorem upvaluejoin_answers : Answers R (upvaluejoin v : M F S Unit) (upvaluejoin w) :=
  (checkUpvalue_inStep hR hS _ _).answers fun _ => (checkUpvalue_inStep hR hS _ _).answers fun _ =>
    rebind_answers hR _ _ _ _ (by trivial) fun _ => giveAll_answers hR _

end Debug

/-! ## Natives of the hand-written bodies -/

namespace Routine

omit [HostFunction F] in
theorem integer_inStep (u : Val) (body : String) :
    InStep R Eq (integer u body : M F S Int64) (integer u body) := by
  unfold integer
  split
  · exact .pure rfl
  · exact violate_inStep _

include hR

/-- The three arguments are read unchecked; a call provides them. -/
theorem add3_answers
    (hargs : ∀ i < 3, ∀ a b, R a b → v.slot a.thread.stack i = w.slot b.thread.stack i) :
    Answers R (add3 v : M F S Unit) (add3 w) :=
  (slotValue_inStep hR (hargs 0 (by omega))).answers fun _ => (integer_inStep _ _).answers fun _ =>
  (slotValue_inStep hR (hargs 1 (by omega))).answers fun _ => (integer_inStep _ _).answers fun _ =>
  (orOverflow_inStep _).answers fun _ =>
  (slotValue_inStep hR (hargs 2 (by omega))).answers fun _ => (integer_inStep _ _).answers fun _ =>
  (orOverflow_inStep _).answers fun _ => give_answers hR _

include hS

theorem counterAdd_answers : Answers R (counterAdd v : M F S Unit) (counterAdd w) :=
  (checkInt_inStep hR hS _ _).answers fun _ => (orOverflow_inStep _).answers fun _ =>
    give_answers hR _

end Routine

end Library

/-! ## All of them -/

/-- The library functions that neither call nor have to do with coroutines. -/
def Builtin.isPlain : Builtin → Bool
  | .tostring | .print | .create | .resume | .yield | .status | .running | .isyieldable | .wrap =>
    false
  | _ => true

/-- The functions of the standard library; the others are the natives of hand-written bodies. -/
def Builtin.isStandard : Builtin → Bool
  | .add3 | .counterAdd => false
  | _ => true

/-- The arguments that a call provides in any case. -/
def Arity.Provides : Arity → Nat → Prop
  | .fixed n, i => i < n
  | .variadic, _ => False

/-- **Natives in step.** A plain native function ends in the same way on windows with equal live
slots. -/
theorem Machine.runBuiltin_answers {F S : Type} [HostBody F S]
    {R : Machine F S → Machine F S → Prop} {v w : View} (P P' : Perform F S) {b : Builtin}
    (hR : Closed R) (hS : Shares R v w) (hb : b.isPlain)
    (hargs : ∀ i, b.arity.Provides i → ∀ m m', R m m' →
      v.slot m.thread.stack i = w.slot m'.thread.stack i) :
    Answers R (runBuiltin P b v) (runBuiltin P' b w) := by
  cases b with
  | assert => exact Base.assert_answers hR hS
  | error => exact Base.error_answers hR hS
  | select => exact Base.select_answers hR hS
  | type => exact Base.type_answers hR hS
  | rawequal => exact Base.rawequal_answers hR hS
  | rawget => exact Base.rawget_answers hR hS
  | rawset => exact Base.rawset_answers hR hS
  | rawlen => exact Base.rawlen_answers hR hS
  | getmetatable => exact Base.getmetatable_answers hR hS
  | setmetatable => exact Base.setmetatable_answers hR hS
  | rawGetmetatable => exact Debug.getmetatable_answers hR hS
  | rawSetmetatable => exact Debug.setmetatable_answers hR hS
  | getupvalue => exact Debug.getupvalue_answers hR hS
  | setupvalue => exact Debug.setupvalue_answers hR hS
  | upvalueid => exact Debug.upvalueid_answers hR hS
  | upvaluejoin => exact Debug.upvaluejoin_answers hR hS
  | add3 => exact Routine.add3_answers hR hargs
  | counterAdd => exact Routine.counterAdd_answers hR hS
  | tostring | print | create | resume | yield | status | running | isyieldable | wrap =>
    cases hb

end ScriptCore
