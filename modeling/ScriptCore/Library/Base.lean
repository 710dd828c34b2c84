import ScriptCore.Args
import ScriptCore.Dispatch

/-!
# The base library

Functions on values, types, metatables and faults. `display` is the text that scripts see of a
value: that of its `__tostring` handler, else its address after its `__name`, else its plain
text. The handler is called without the right to yield.

A protected call is re-entered when its callee continues after a suspension, so the callee may
yield. `settle` turns the way in which the callee ended into results.
-/

namespace ScriptCore.Base

open Machine Args

variable {F S : Type} [HostFunction F]

/-- The text that scripts see of a value. -/
def display (perform : Perform F S) (scratch : View) (v : Val) : M F S String := do
  match ← metamethod v .toString with
  | some handler =>
    let window ← load scratch [v]
    callNonresumable perform window handler "__tostring"
    match ← result 0 with
    | .str s => return s
    | _ => fail (.user (.str "'__tostring' must return a string"))
  | none =>
    let name ← match ← metatableOf v with
      | some t => do pure ((← tableAt t).getStr Event.name.key).toString?
      | none => pure none
    match name, v.address? with
    | some name, some a => return name ++ ": " ++ addressText a
    | _, _ => return (← get).heap.text v

def assert (args : View) : M F S Unit := do
  if (← checkAny args 1 "assert").truthy then giveAll (← valuesFrom args 0)
  else
    match ← arg args 2 with
    | .nil => fail (.user (.str "assertion failed!"))
    | message => fail (.user message)

/-- The level is checked and has no other effect, since values carry no position. -/
def error (args : View) : M F S Unit := do
  let _ ← optInt args 2 "error" 1
  fail (.user (← arg args 1))

/-- The number of arguments after the first, or those from a position on, where a negative
position counts from the end. -/
def select (args : View) : M F S Unit := do
  let count := args.top - 1
  if (← arg args 1).toString? = some "#" then give (Val.ofNat count)
  else
    let n := (← checkInt args 1 "select").toInt
    let skip ←
      if n < 0 then
        if count < n.natAbs then fail (.argument 1 "select" .outOfRange)
        else pure (count - n.natAbs)
      else if n = 0 then fail (.argument 1 "select" .outOfRange)
      else pure (min (n.toNat - 1) count)
    giveAll (← valuesFrom args (1 + skip))

def type (args : View) : M F S Unit := do
  give (.str (← checkAny args 1 "type").typeName)

def tostring (perform : Perform F S) (args : View) : M F S Unit := do
  let v ← checkAny args 1 "tostring"
  give (.str (← display perform (args.child 1) v))

/-- The texts of values, each after a tab but the first. -/
def line (perform : Perform F S) (scratch : View) : List Val → M F S (List String)
  | [] => pure []
  | v :: vs => do
    let text ← display perform scratch v
    return text :: (← line perform scratch vs)

def print (perform : Perform F S) (args : View) : M F S Unit := do
  let values ← valuesFrom args 0
  let texts ← line perform (args.child values.length) values
  emit ("\t".intercalate texts ++ "\n")
  giveAll []

def rawequal (args : View) : M F S Unit := do
  let a ← checkAny args 1 "rawequal"
  let b ← checkAny args 2 "rawequal"
  give (.bool (a.rawEq b))

def rawget (args : View) : M F S Unit := do
  let t ← checkTable args 1 "rawget"
  let key ← arg args 2
  give ((← tableAt t).get key)

def rawset (args : View) : M F S Unit := do
  let t ← checkTable args 1 "rawset"
  let key ← checkAny args 2 "rawset"
  setTable t key (← arg args 3)
  give (.table t)

def rawlen (args : View) : M F S Unit := do
  match ← arg args 1 with
  | .table t => give (Val.ofNat (← tableAt t).len)
  | .str s => give (Val.ofNat s.utf8ByteSize)
  | _ => fail (.argument 1 "rawlen" .noLength)

/-- The metatable of a value, or what stands in its place. -/
def getmetatable (args : View) : M F S Unit := do
  let v ← checkAny args 1 "getmetatable"
  match ← metatableOf v with
  | none => give .nil
  | some t =>
    let guard := (← tableAt t).getStr Event.metatable.key
    give (if guard.isNil then .table t else guard)

/-- Sets the metatable of a table, unless the present one is protected. -/
def setmetatable (args : View) : M F S Unit := do
  let t ← checkTable args 1 "setmetatable"
  let next ← optTable args 2 "setmetatable"
  let guarded ← match (← tableAt t).metatable with
    | some old => do pure !((← tableAt old).getStr Event.metatable.key).isNil
    | none => pure false
  if guarded then fail (.user (.str "cannot change a protected metatable"))
  setMetatable t next
  give (.table t)

/-! ## Protected calls -/

/-- The value that a message handler makes of a fault's value. A fault of the handler takes its
place. -/
def handled (perform : Perform F S) (window : View) (handler v : Val) : M F S Val := do
  let window ← load window [v]
  match ← attempt (callNonresumable perform window handler "xpcall handler") with
  | .ok () => result 0
  | .error (.fault f) => if f.isCatchable then return f.value else fail f
  | .error e => throw e

/-- Turns the way in which a protected callee ended into results. -/
def settle (perform : Perform F S) (function : FnId) (p : Protection) (window : View)
    (handler : Val) (ending : Except Unwind Unit) : M F S Unit := do
  match ending with
  | .ok () => prependResult (.bool true)
  | .error (.suspend s) => suspendWith function 1 ⟨[], 0, [handler]⟩ s
  | .error (.fault f) =>
    if f.isCatchable then
      let m ← get
      record fun _ => .caught p.name (m.heap.message f)
      let v ← match p with
        | .plain => pure f.value
        | .handler => handled perform window handler f.value
      giveAll [.bool false, v]
    else fail f
  | .error e => throw e

/-- Calls the first argument under protection. With a handler, it is the second argument. -/
def protectedCall (perform : Perform F S) (function : FnId) (p : Protection) (args : View) :
    M F S Unit := do
  let target ← checkAny args 1 p.name
  let (handler, first) ← match p with
    | .plain => pure (.nil, 1)
    | .handler => do pure (← checkAny args 2 p.name, 2)
  let window := args.child first
  let ending ← attempt (perform (.call window target))
  settle perform function p window handler ending

/-- Goes on with a protected call whose callee was suspended. -/
def resumeProtected (perform : Perform F S) (function : FnId) (p : Protection) (view : View)
    (index : Nat) (saved : Saved) (inner : List Link) (values : List Val) : M F S Unit := do
  if index ≠ 1 then violate (.noSegment p.name index)
  let handler := saved.varargs.headD .nil
  let ending ← attempt (perform (.replay inner values view))
  settle perform function p view handler ending

end ScriptCore.Base
