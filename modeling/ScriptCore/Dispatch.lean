import ScriptCore.Frame
import ScriptCore.Operator

/-!
# Calls, look-ups and operators with handlers

Every operation gets a scratch window above the live slots of its caller. Handlers are called
through the machine, so any of these operations may suspend.

* `resolve` finds the function behind a call: each `__call` handler on the way takes the value
  before it as first argument.
* `index` and `newIndex` follow handlers that are no functions as the next object.
* `arith` and `unary` ask the operands' handlers where the operator itself has no result.

A chain of handlers has a limit, so a cycle ends in a fault.
-/

namespace ScriptCore

namespace Machine

variable {F S : Type}

/-- Calls a value with arguments copied into a window. -/
def callWith (perform : Perform F S) (window : View) (target : Val) (args : List Val) :
    M F S Unit := do
  let window ← load window args
  perform (.call window target)

/-- Calls a handler for its first result. -/
def callMeta (perform : Perform F S) (window : View) (handler : Val) (args : List Val) :
    M F S Val := do
  callWith perform window handler args
  result 0

/-- Calls a value from a function that cannot be re-entered: a yield below fails. -/
def callNonresumable (perform : Perform F S) (window : View) (target : Val) (boundary : String) :
    M F S Unit := do
  enterBoundary
  match ← attempt (ensuring (perform (.call window target)) leaveBoundary) with
  | .ok () => pure ()
  | .error (.suspend _) => fail (.yieldAcrossBoundary boundary)
  | .error e => throw e

/-- The fault of a chain of handlers that is too long. -/
def chainFault (e : Event) : Fault := .user (.str ("'" ++ e.key ++ "' chain too long; possible loop"))

/-- The function behind a call and the window with its arguments; at most `limit` handlers are
followed. -/
def resolve (window : View) (target : Val) (limit : Nat) : M F S (FnId × View) :=
  match target with
  | .fn f => pure (f, window)
  | target => do
    match ← metamethod target .call with
    | none => fail (.notCallable target.kind)
    | some handler =>
      match limit with
      | 0 => fail (chainFault .call)
      | limit + 1 =>
        record fun _ => .callHandler target.kind
        let window ← insertFront window target
        resolve window handler limit
termination_by structural limit

/-- Where a look-up has come to. -/
inductive Found
  /-- The object is a table, and this is its own entry. -/
  | entry (t : TableId) (v : Val)
  /-- The object leaves the look-up to a handler. -/
  | handler (h : Val)
deriving Inhabited

/-- One step of a look-up at `current`. -/
def probe (event : Event) (current key : Val) : M F S Found := do
  match current with
  | .table t =>
    let v := (← tableAt t).get key
    if v.isNil then
      match ← metamethod current event with
      | some h => return .handler h
      | none => return .entry t .nil
    else return .entry t v
  | other =>
    match ← metamethod other event with
    | some h => return .handler h
    | none => fail (.index other.kind)

/-- `object[key]`; at most `limit` handlers are followed. -/
def indexWithin (perform : Perform F S) (scratch : View) (current key : Val) (limit : Nat) :
    M F S Val := do
  match ← probe .index current key with
  | .entry _ v => return v
  | .handler h =>
    match limit with
    | 0 => fail (chainFault .index)
    | limit + 1 =>
      record fun _ => .lookupHandler .index current.kind key.kind
      if h.isFunction then callMeta perform scratch h [current, key]
      else indexWithin perform scratch h key limit
termination_by structural limit

/-- `object[key]`. -/
def index (perform : Perform F S) (scratch : View) (object key : Val) : M F S Val := do
  indexWithin perform scratch object key (← config).maxMetaChain

/-- `object[key] = value`; at most `limit` handlers are followed. -/
def newIndexWithin (perform : Perform F S) (scratch : View) (current key value : Val)
    (limit : Nat) : M F S Unit := do
  match ← probe .newIndex current key with
  | .entry t _ => setTable t key value
  | .handler h =>
    match limit with
    | 0 => fail (chainFault .newIndex)
    | limit + 1 =>
      record fun _ => .lookupHandler .newIndex current.kind key.kind
      if h.isFunction then callWith perform scratch h [current, key, value]
      else newIndexWithin perform scratch h key value limit
termination_by structural limit

/-- `object[key] = value`. -/
def newIndex (perform : Perform F S) (scratch : View) (object key value : Val) : M F S Unit := do
  newIndexWithin perform scratch object key value (← config).maxMetaChain

/-- The handler of the first operand, else of the second. -/
def handlerOf (event : Event) (lhs rhs : Val) : M F S (Option Val) := do
  match ← metamethod lhs event with
  | some h => return some h
  | none => metamethod rhs event

/-- A binary operator. -/
def arith (perform : Perform F S) (scratch : View) (op : BinOp) (lhs rhs : Val) : M F S Val := do
  match ← orFail (op.apply lhs rhs) with
  | some v => return v
  | none =>
    match ← handlerOf op.event lhs rhs with
    | none => orFail (op.missing lhs rhs)
    | some h =>
      record fun _ => .binaryHandler op.event lhs.kind rhs.kind
      return op.finish (← callMeta perform scratch h [lhs, rhs])

/-- A unary operator. -/
def unary (perform : Perform F S) (scratch : View) (op : UnOp) (v : Val) : M F S Val := do
  match ← orFail (op.apply v) with
  | some v => return v
  | none =>
    let handler ← match op.event? with
      | some event => metamethod v event
      | none => pure none
    match handler with
    | none =>
      let m ← get
      orFail (op.missing (fun t => (m.heap.table t).len) v)
    | some h =>
      record fun _ => .unaryHandler op v.kind
      callMeta perform scratch h [v, v]

end Machine

end ScriptCore
