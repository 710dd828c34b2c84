import ScriptCore.Engine

/-!
# Running scripts

A session starts a machine on a heap, loads bodies, and calls values from outside. What carries
out the requests of a call is a parameter; a program takes `carryOut`, which has more fuel than a
run can use up.
-/

namespace ScriptCore

namespace Machine

variable {F S : Type}

/-- More fuel than a run can use up. -/
def ample : Nat := twoPow 60

/-- A machine that has not run, on a state of its own. -/
def start (heap : Heap F) (config : Config) (trace : Option (Array TraceEvent)) (host : S) :
    Machine F S :=
  let ⟨tables, cells, functions, coroutines⟩ := heap
  { heap := ⟨tables.push .empty, cells, functions, coroutines⟩
    world := ⟨⟨tables.size⟩, fun _ => none, config⟩
    thread := .ofConfig config
    output := ""
    trace := trace
    journal := none
    host := host }

/-- The value of a global. -/
def getGlobal (name : String) : M F S Val := do return (← tableAt (← globals)).getStr name

def setGlobal (name : String) (v : Val) : M F S Unit := do setField (← globals) name v

/-- The raw entry at the end of a path of names; what is no table has no entries. -/
def valueAtPath (names : List String) : M F S Val := do
  names.foldlM (fun v name => do
    match v with
    | .table t => return (← tableAt t).getStr name
    | _ => return .nil) (.table (← globals))

/-- A closure over a body that was checked. -/
def loadProto (proto : Proto) : M F S Val := do
  orReject proto.check
  record fun _ => .load proto.name proto.slots
  return .fn (← newClosure proto #[])

/-- Carries out a request. -/
def carryOut [HostBody F S] : Perform F S := perform ample

/-- Calls a value from outside and takes its results. -/
def callFromOutside (perform : Perform F S) (target : Val) (args : List Val) :
    M F S (List Val) := do
  match ← attempt (callWith perform .root target args) with
  | .ok () => takeResults
  | .error (.suspend _) => violate .suspendedAtTop
  | .error e => throw e

/-- Calls a value from outside for its first result. -/
def callForOne (perform : Perform F S) (target : Val) (args : List Val) : M F S Val := do
  return (← callFromOutside perform target args).headD .nil

end Machine

end ScriptCore
