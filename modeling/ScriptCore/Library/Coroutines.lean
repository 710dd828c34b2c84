import ScriptCore.Args
import ScriptCore.Coroutine

/-!
# The coroutine library
-/

namespace ScriptCore.Coroutines

open Machine Args

variable {F S : Type}

def create (args : View) : M F S Unit := do
  let body ← checkFunction args 1 "create"
  give (.co (← newCoroutine (.fn body)))

/-- True and the values handed back, or false and the value of the fault. -/
def resume (perform : Perform F S) (args : View) : M F S Unit := do
  let co ← checkCoroutine args 1 "resume"
  let values ← valuesFrom args 1
  match ← attempt (Machine.resume perform (args.child args.top) co values) with
  | .ok _ => prependResult (.bool true)
  | .error (.fault f) => if f.isCatchable then giveAll [.bool false, f.value] else fail f
  | .error e => throw e

def yield (args : View) : M F S Unit := do yieldValues (← valuesFrom args 0)

def status (args : View) : M F S Unit := do
  let co ← checkCoroutine args 1 "status"
  give (.str (← coroutineAt co).status.name)

/-- The running coroutine and false, or nil and true on the main thread. -/
def running : M F S Unit := do
  match (← get).thread.current with
  | some co => giveAll [.co co, .bool false]
  | none => giveAll [.nil, .bool true]

def isyieldable : M F S Unit := do give (.bool (← isYieldable))

def wrap (args : View) : M F S Unit := do
  let body ← checkFunction args 1 "wrap"
  let co ← newCoroutine (.fn body)
  give (← newFunctionVal (.wrapped co))

/-- A call of a wrapped coroutine resumes it and raises its faults. -/
def callWrapped (perform : Perform F S) (co : CoId) (args : View) : M F S Unit := do
  let values ← valuesFrom args 0
  let _ ← Machine.resume perform (args.child args.top) co values

end ScriptCore.Coroutines
