import ScriptCore.Session

/-!
# Scenarios

A scenario is a named job with a known result. A job calls a value with fixed arguments, or
plays ping-pong with a coroutine. `Prepared.run` carries the job out and compares its value with
the expected one.
-/

namespace ScriptCore

/-! ## Bodies of scenarios -/

namespace Bodies

/-- Adds constants and operations to a new body. -/
def bodyOf (name : String) (params slots : Nat) (constants : List Val) (code : List Op) :
    Proto :=
  { Proto.ofName name with
    params := params, slots := slots, constants := constants.toArray, code := code.toArray }

/-- `f(self, n)` is 100 at 0, else `self(self, n - 1) + 1`. -/
def recurse : Proto :=
  bodyOf "recurse_proto" 2 5 [.int 0, .int 100, .int 1]
    [.const 2 0,
     .binary .eq 2 1 2,
     .test 2 false 5,
     .const 2 1,
     .ret 2 (.fixed 1),
     .move 2 0,
     .move 3 0,
     .const 4 2,
     .binary .sub 4 1 4,
     .call 2 (.fixed 2) (.fixed 1),
     .const 3 2,
     .binary .add 2 2 3,
     .ret 2 (.fixed 1)]

/-- `count(n, acc)` is `acc` at 0, else tail-calls the global `count` with `(n - 1, acc + 1)`. -/
def count : Proto :=
  bodyOf "count" 2 5 [.int 0, .int 1, .str "count"]
    [.const 2 0,
     .binary .eq 2 0 2,
     .test 2 false 4,
     .ret 1 (.fixed 1),
     .getGlobal 2 2,
     .const 4 1,
     .binary .sub 3 0 4,
     .binary .add 4 1 4,
     .tailCall 2 (.fixed 2)]

/-- `run(n)` adds the global `counter` to a sum `n` times. -/
def metaAdd : Proto :=
  bodyOf "meta_add" 1 5 [.int 0, .int 1, .str "counter"]
    [.getGlobal 1 2,
     .const 2 0,
     .const 3 0,
     .binary .lt 4 3 0,
     .test 4 false 9,
     .binary .add 2 1 2,
     .const 4 1,
     .binary .add 3 3 4,
     .jump 3,
     .ret 2 (.fixed 1)]

end Bodies

/-! ## Jobs -/

/-- What a scenario does. -/
inductive Job
  /-- Sets globals and calls a value. -/
  | call (target : Val) (args : List Val) (globals : List (String × Val))
  /-- Resumes a coroutine over a body some times, with the value that it yielded before. -/
  | pingPong (body : Val) (rounds : Nat)

/-- The scenarios. -/
inductive Scenario
  | recurseFixed | recursePacked | recurseProto | tailCall | selfTailCall | tailChain
  | sharedStack | coroutinePingPong | metaAdd
deriving DecidableEq, Repr

namespace Scenario

/-- Every scenario, in the order in which they run. -/
def all : List Scenario :=
  [.recurseFixed, .recursePacked, .recurseProto, .tailCall, .selfTailCall, .tailChain,
   .sharedStack, .coroutinePingPong, .metaAdd]

def key : Scenario → String
  | .recurseFixed => "recurse_fixed"
  | .recursePacked => "recurse_packed"
  | .recurseProto => "recurse_proto"
  | .tailCall => "tail_call"
  | .selfTailCall => "self_tail_call"
  | .tailChain => "tail_chain"
  | .sharedStack => "shared_stack"
  | .coroutinePingPong => "coroutine_ping_pong"
  | .metaAdd => "meta_add"

def title : Scenario → String
  | .recurseFixed => "Recursive call, fixed-arity entry"
  | .recursePacked => "Recursive call, packed-argument entry"
  | .recurseProto => "Recursive call through interpreted bytecode"
  | .tailCall => "Mutual tail calls (n -> acc)"
  | .selfTailCall => "Self-recursive tail call through a global"
  | .tailChain => "One million chained tail calls"
  | .sharedStack => "Arguments staged in place on the shared stack"
  | .coroutinePingPong => "Coroutine resume/yield round trips"
  | .metaAdd => "Arithmetic dispatched to __add"

/-- The name of the scenario in a benchmark. -/
def benchCase (s : Scenario) : String := s.key ++ "_call"

def recursionDepth : Int64 := 20
def tailIterations : Int64 := 100000
def tailChainDepth : Int64 := 1000000
def sharedStackCalls : Int64 := 1000
def pingPongRounds : Nat := 10000
def metaAddIterations : Int64 := 1000

/-- The result of the job. -/
def expected : Scenario → Int64
  | .recurseFixed | .recursePacked | .recurseProto => 100 + recursionDepth
  | .tailCall | .selfTailCall => tailIterations
  | .tailChain => tailChainDepth
  | .sharedStack => sharedStackCalls * (sharedStackCalls + 1) / 2
  | .coroutinePingPong => Int64.ofNat pingPongRounds
  | .metaAdd => metaAddIterations

def ofKey? (key : String) : Option Scenario := all.find? (·.key == key)

variable {F S : Type}

open Machine

/-- A table whose addition gives the other operand and one more. -/
def counterObject : M F S Val := do
  let metatable ← newTable
  setField metatable Event.add.key (← newFunctionVal (.builtin .counterAdd))
  let counter ← newTable
  setMetatable counter (some metatable)
  return .table counter

/-- A job that calls a function with itself and a count. -/
def selfCall (f : Val) (n : Int64) : Job := .call f [f, .int n] []

/-- The objects of a scenario's job. -/
def prepare : Scenario → M F S Job
  | .recurseFixed => do
    return selfCall (← newFunctionVal (.routine (.recurse false))) recursionDepth
  | .recursePacked => do
    return selfCall (← newFunctionVal (.routine (.recurse true))) recursionDepth
  | .recurseProto => do return selfCall (.fn (← newClosure Bodies.recurse #[])) recursionDepth
  | .tailCall => do
    let ping ← newFunctionVal (.routine .bounce)
    let pong ← newFunctionVal (.routine .bounce)
    return .call ping [ping, pong, .int tailIterations, .int 0] []
  | .selfTailCall => do
    let count := .fn (← newClosure Bodies.count #[])
    return .call count [.int tailIterations, .int 0] [("count", count)]
  | .tailChain => do
    let step ← newFunctionVal (.routine .tailStep)
    return .call step [step, .int tailChainDepth, .int 0] []
  | .sharedStack => do
    let add3 ← newFunctionVal (.builtin .add3)
    return .call (← newFunctionVal (.routine (.sharedSum add3))) [.int sharedStackCalls] []
  | .coroutinePingPong => do
    return .pingPong (← newFunctionVal (.routine .echo)) pingPongRounds
  | .metaAdd => do
    let run := .fn (← newClosure Bodies.metaAdd #[])
    return .call run [.int metaAddIterations] [("counter", ← counterObject)]

end Scenario

/-! ## Runs -/

/-- A scenario with the objects of its job. -/
structure Prepared where
  scenario : Scenario
  job : Job

/-- Why a run of a scenario is no success. -/
inductive RunError
  | failed (key : String) (fault : Fault)
  /-- The value is not the expected one. -/
  | unexpected (expected : Int64) (observed : Val)

/-- The words of a failed run. -/
def RunError.message {F : Type} [HostFunction F] (heap : Heap F) : RunError → String
  | .failed key fault => s!"scenario '{key}' failed: " ++ heap.message fault
  | .unexpected expected observed =>
    "expected Int(" ++ Integer.text expected ++ ") but observed " ++ heap.form observed

/-- The value of a run and the size of the stack after it. -/
structure RunResult where
  value : Val
  stackSlots : Nat

namespace Machine

variable {F S : Type}

def setGlobals : List (String × Val) → M F S Unit
  | [] => pure ()
  | (name, v) :: rest => do setGlobal name v; setGlobals rest

/-- Resumes a coroutine some times, each time with the value it handed back before. -/
def pingPong (perform : Perform F S) (co : CoId) : Nat → Val → M F S Val
  | 0, v => pure v
  | n + 1, v => do
    let _ ← resume perform .root co [v]
    pingPong perform co n (← result 0)

/-- Carries out a job. -/
def runJob (perform : Perform F S) : Job → M F S Val
  | .call target args globals => do
    setGlobals globals
    callForOne perform target args
  | .pingPong body rounds => do
    pingPong perform (← newCoroutine body) rounds (.int 0)

/-- Prepares scenarios in order. -/
def prepareAll : List Scenario → M F S (List Prepared)
  | [] => pure []
  | s :: rest => do
    let job ← s.prepare
    return ⟨s, job⟩ :: (← prepareAll rest)

/-- Runs a scenario on the machine as it is. -/
def runPrepared (perform : Perform F S) (p : Prepared) :
    M F S (Except RunError RunResult) := do
  match ← attempt (runJob perform p.job) with
  | .ok v =>
    if v.rawEq (.int p.scenario.expected) then
      return .ok ⟨v, (← get).thread.stack.capacity⟩
    else return .error (.unexpected p.scenario.expected v)
  | .error (.fault f) => return .error (.failed p.scenario.key f)
  | .error (.suspend _) =>
    return .error (.failed p.scenario.key (.contract .suspendedAtTop))
  | .error e => throw e

/-- Gives the machine a new state and a new thread; the objects stay. -/
def restart (config : Config) : M F S Unit := modify fun m =>
  { Machine.start m.heap config m.trace m.host with output := m.output }

end Machine

end ScriptCore
