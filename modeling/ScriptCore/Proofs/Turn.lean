import ScriptCore.Interpreter
import ScriptCore.Proofs.Planning

/-!
# Operations as turns

An operation of a body is a turn: it goes on, ends the body, or asks for one call and then stores
its outcome. `prepare` is the part before the call, and `execute_eq` says that an operation is
its preparation, at most one call, and `complete`. A suspended body continues with `complete`
too, so a turn is resumed in the middle and nothing else is.
-/

namespace ScriptCore

namespace Body

variable {F S α β : Type}

theorem lift_bind (x : M F S α) (f : α → M F S β) :
    (lift (x >>= f) : Body F S β) = lift x >>= fun a => lift (f a) := by
  funext s
  show lift (EStateM.bind x f) s = EStateM.bind (lift x) (fun a => lift (f a)) s
  simp only [lift, EStateM.bind]
  cases x s.machine <;> rfl

theorem lift_pure (a : α) : (lift (pure a : M F S α) : Body F S α) = pure a := rfl

theorem lift_of_ok {x : M F S α} {a : α} {s : Active F S} {m : Machine F S}
    (h : x s.machine = .ok a m) : lift x s = .ok a ⟨s.frame, m⟩ := by
  simp only [lift, h]

theorem lift_of_error {x : M F S α} {e : Unwind} {s : Active F S} {m : Machine F S}
    (h : x s.machine = .error e m) : lift x s = .error e ⟨s.frame, m⟩ := by
  simp only [lift, h]

end Body

namespace Interpreter

open Machine

variable {F S : Type}

/-- What an operation of a body does next. -/
inductive Turn
  | goto (pc : Nat)
  | done
  /-- It asks for a call and goes on behind it. -/
  | ask (window : View) (target : Val)

/-- Carries a plan out up to its call. -/
def follow (pc : Nat) (scratch : View) (store : Val → Body F S Unit) : Intent → Body F S Turn
  | .value v => do
    store v
    return .goto (pc + 1)
  | .ask handler args => do return .ask (← Body.lift (load scratch args)) handler

/-- An operation that calls nothing. -/
def settled (function : FnId) (proto : Proto) (pc : Nat) (op : Op) : Body F S Turn := do
  match ← execute (fun _ => throw .exhausted) function proto pc op with
  | .goto pc => return .goto pc
  | .done => return .done

/-- The part of an operation before its call. -/
def prepare (function : FnId) (proto : Proto) (pc : Nat) (op : Op) : Body F S Turn :=
  match op with
  | .getGlobal dst name => do
    Body.setIndex (pc + 1)
    let scratch ← Body.scratch
    let plan ← Body.lift do planIndex (.table (← globals)) (proto.constants.getD name.toNat .nil)
    follow pc scratch (Body.setSlot dst.toNat) plan
  | .setGlobal name src => do
    let value ← Body.getSlot src.toNat
    Body.setIndex (pc + 1)
    let scratch ← Body.scratch
    let plan ← Body.lift do
      planNewIndex (.table (← globals)) (proto.constants.getD name.toNat .nil) value
    follow pc scratch (fun _ => pure ()) plan
  | .index dst object key => do
    let object ← Body.getSlot object.toNat
    let key ← Body.getSlot key.toNat
    Body.setIndex (pc + 1)
    let scratch ← Body.scratch
    let plan ← Body.lift (planIndex object key)
    follow pc scratch (Body.setSlot dst.toNat) plan
  | .newIndex object key value => do
    let object ← Body.getSlot object.toNat
    let key ← Body.getSlot key.toNat
    let value ← Body.getSlot value.toNat
    Body.setIndex (pc + 1)
    let scratch ← Body.scratch
    let plan ← Body.lift (planNewIndex object key value)
    follow pc scratch (fun _ => pure ()) plan
  | .binary op dst lhs rhs => do
    let lhs ← Body.getSlot lhs.toNat
    let rhs ← Body.getSlot rhs.toNat
    Body.setIndex (pc + 1)
    let scratch ← Body.scratch
    let plan ← Body.lift (planArith op lhs rhs)
    follow pc scratch (Body.setSlot dst.toNat) plan
  | .unary .not dst src => settled function proto pc (.unary .not dst src)
  | .unary op dst src => do
    let operand ← Body.getSlot src.toNat
    Body.setIndex (pc + 1)
    let scratch ← Body.scratch
    let plan ← Body.lift (planUnary op operand)
    follow pc scratch (Body.setSlot dst.toNat) plan
  | .call func args _ => do
    let target ← Body.getSlot func.toNat
    let (first, last) ← span (← Body.lift (orOverflow (Reg.next? func))) args
    Body.setIndex (pc + 1)
    let f ← Body.frame
    let window ← Body.lift (setTop (f.view.child first) (last - first))
    return .ask window target
  | op => settled function proto pc op

/-- The call that a turn asks for, and then the outcome of the operation. -/
def finish (perform : Perform F S) (proto : Proto) (pc : Nat) : Turn → Body F S Next
  | .goto pc => return .goto pc
  | .done => return .done
  | .ask window target => do
    Body.lift (perform (.call window target))
    complete proto pc
    return .goto (pc + 1)

theorem settled_finish (P : Perform F S) (function : FnId) (proto : Proto) (pc : Nat) (op : Op)
    (h : execute P function proto pc op =
      execute (fun _ => throw .exhausted) function proto pc op) :
    execute P function proto pc op = settled function proto pc op >>= finish P proto pc := by
  rw [h, settled, bind_assoc]
  conv => lhs; rw [← bind_pure (execute _ function proto pc op)]
  congr 1
  funext next
  cases next <;> rfl

/-- A look-up or an operator of a body goes by its plan. -/
theorem follow_finish (P : Perform F S) {proto : Proto} {pc : Nat} (scratch : View) {dst : Reg}
    (post : Val → Val) (plan : Intent)
    (hcomplete : complete proto pc =
      (do Body.setSlot dst.toNat (post (← Body.lift (result 0))) : Body F S Unit)) :
    follow pc scratch (Body.setSlot dst.toNat) plan >>= finish P proto pc = (do
      Body.setSlot dst.toNat (← Body.lift (answer P scratch post plan))
      return .goto (pc + 1) : Body F S Next) := by
  cases plan with
  | value v => simp [follow, finish, answer, Body.lift_pure]
  | ask h args =>
    simp [-bind_pure_comp, follow, finish, answer, Body.lift_bind, Body.lift_pure, callMeta,
      Machine.callWith, hcomplete]

/-- A write of a body goes by its plan. -/
theorem follow_finish_write (P : Perform F S) {proto : Proto} {pc : Nat} (scratch : View)
    (plan : Intent) (hcomplete : complete proto pc = (pure () : Body F S Unit)) :
    follow pc scratch (fun _ => pure ()) plan >>= finish P proto pc = (do
      Body.lift (enact P scratch plan)
      return .goto (pc + 1) : Body F S Next) := by
  cases plan with
  | value v => simp [follow, finish, enact, Body.lift_pure]
  | ask h args =>
    simp [-bind_pure_comp, follow, finish, enact, Body.lift_bind, Machine.callWith, hcomplete]

/-- **Operations as turns.** An operation is its preparation, at most one call, and its
completion. -/
theorem execute_eq (P : Perform F S) (function : FnId) {proto : Proto} {pc : Nat} {op : Op}
    (hop : proto.code[pc]? = some op) :
    execute P function proto pc op = prepare function proto pc op >>= finish P proto pc := by
  cases op with
  | getGlobal dst name =>
    have hc : complete proto pc =
        (do Body.setSlot dst.toNat (id (← Body.lift (result 0))) : Body F S Unit) := by
      simp [complete, hop]
    simp only [execute, prepare, bind_assoc, index_eq, Body.lift_bind, follow_finish P _ id _ hc]
  | setGlobal name src =>
    have hc : complete proto pc = (pure () : Body F S Unit) := by simp [complete, hop]
    simp only [execute, prepare, bind_assoc, newIndex_eq, Body.lift_bind,
      follow_finish_write P _ _ hc]
  | index dst object key =>
    have hc : complete proto pc =
        (do Body.setSlot dst.toNat (id (← Body.lift (result 0))) : Body F S Unit) := by
      simp [complete, hop]
    simp only [execute, prepare, bind_assoc, index_eq, Body.lift_bind, follow_finish P _ id _ hc]
  | newIndex object key value =>
    have hc : complete proto pc = (pure () : Body F S Unit) := by simp [complete, hop]
    simp only [execute, prepare, bind_assoc, newIndex_eq, Body.lift_bind,
      follow_finish_write P _ _ hc]
  | binary op dst lhs rhs =>
    have hc : complete proto pc =
        (do Body.setSlot dst.toNat (op.finish (← Body.lift (result 0))) : Body F S Unit) := by
      simp [complete, hop]
    simp only [execute, prepare, bind_assoc, arith_eq, Body.lift_bind,
      follow_finish P _ op.finish _ hc]
  | unary op dst src =>
    cases op with
    | not => exact settled_finish P _ _ _ _ rfl
    | neg | bnot | len =>
      have hc : complete proto pc =
          (do Body.setSlot dst.toNat (id (← Body.lift (result 0))) : Body F S Unit) := by
        simp [complete, hop]
      simp only [execute, prepare, bind_assoc, unary_eq, Body.lift_bind,
        follow_finish P _ id _ hc]
  | call func args results =>
    simp only [execute, prepare, bind_assoc, Body.call, pure_bind, finish]
  | nil | bool | const | move | varInit | varStore | getUpval | setUpval | closure | newTable
  | append | jump | test | tailCall | ret | vararg => exact settled_finish P _ _ _ _ rfl

end Interpreter

end ScriptCore
