import ScriptCore.Fault

/-!
# What a run reports

The machine reports its steps as events in order. An event has a level, the part of the system
it comes from, and named fields; its message is the first of them.
-/

namespace ScriptCore

/-- The state of a coroutine as scripts see it. -/
inductive Status
  | suspended | running
  /-- Waiting for a coroutine that it resumed. -/
  | normal
  | dead
deriving DecidableEq, Repr

namespace Status

def name : Status → String
  | .suspended => "suspended"
  | .running => "running"
  | .normal => "normal"
  | .dead => "dead"

/-- The written form of a status. -/
def text : Status → String
  | .suspended => "Suspended"
  | .running => "Running"
  | .normal => "Normal"
  | .dead => "Dead"

end Status

/-- A step that the machine reports. -/
inductive TraceEvent
  | growStack (before after : Nat)
  | invoke (callee : String) (nargs depth : Nat)
  | tailCall (callee : Kind) (nargs : Nat)
  | callHandler (operand : Kind)
  | lookupHandler (event : Event) (object key : Kind)
  | binaryHandler (event : Event) (lhs rhs : Kind)
  | unaryHandler (op : UnOp) (operand : Kind)
  | suspended (function : String) (index depth : Nat)
  | replay (function : String) (index remaining : Nat)
  | status (before after : Status)
  | resume (nargs : Nat)
  | load (name : String) (slots : Nat)
  | install (name : String)
  | caught (function error : String)
deriving DecidableEq, Repr

/-- The value of a field. -/
inductive Field
  | number (n : Nat)
  | text (s : String)
  /-- An address, which differs from run to run. -/
  | address
deriving DecidableEq, Repr

namespace TraceEvent

/-- Whether the event is of the finer of the two levels. -/
def isFine : TraceEvent → Bool
  | .growStack .. | .invoke .. | .tailCall .. | .suspended .. | .replay .. => true
  | _ => false

def level (e : TraceEvent) : String := if e.isFine then "TRACE" else "DEBUG"

/-- The part of the system that reports the event. -/
def target : TraceEvent → String
  | .growStack .. => "tidal::vm::stack"
  | .invoke .. | .load .. => "tidal::vm::dispatch"
  | .tailCall .. => "tidal::vm::trampoline"
  | .callHandler .. | .lookupHandler .. | .binaryHandler .. | .unaryHandler .. =>
    "tidal::vm::slowpath"
  | .suspended .. | .replay .. => "tidal::vm::suspend"
  | .status .. | .resume .. => "tidal::vm::coroutine"
  | .install .. => "tidal_core::module"
  | .caught .. => "tidal_stdlib::base"

def message : TraceEvent → String
  | .growStack .. => "grow activation stack"
  | .invoke .. => "invoke"
  | .tailCall .. => "tail call"
  | .callHandler .. | .lookupHandler .. | .binaryHandler .. | .unaryHandler .. =>
    "metamethod dispatch"
  | .suspended .. => "frame suspended"
  | .replay .. => "replay link"
  | .status .. => "status change"
  | .resume .. => "resume"
  | .load .. => "load proto"
  | .install .. => "install module"
  | .caught .. => "caught error"

/-- The fields besides the message. -/
def details : TraceEvent → List (String × Field)
  | .growStack before after => [("from", .number before), ("to", .number after)]
  | .invoke callee nargs depth =>
    [("callee", .text callee), ("nargs", .number nargs), ("depth", .number depth)]
  | .tailCall callee nargs => [("callee", .text callee.name), ("nargs", .number nargs)]
  | .callHandler operand => [("event", .text Event.call.key), ("operand", .text operand.name)]
  | .lookupHandler event object key =>
    [("event", .text event.key), ("object", .text object.name), ("key", .text key.name)]
  | .binaryHandler event lhs rhs =>
    [("event", .text event.key), ("lhs", .text lhs.name), ("rhs", .text rhs.name)]
  | .unaryHandler op operand => [("op", .text op.symbol), ("operand", .text operand.name)]
  | .suspended function index depth =>
    [("function", .text function), ("index", .number index), ("depth", .number depth)]
  | .replay function index remaining =>
    [("function", .text function), ("index", .number index), ("remaining", .number remaining)]
  | .status before after =>
    [("coroutine", .address), ("from", .text before.name), ("to", .text after.name)]
  | .resume nargs => [("nargs", .number nargs)]
  | .load name slots => [("name", .text name), ("slots", .number slots)]
  | .install name => [("module", .text name)]
  | .caught function error => [("function", .text function), ("error", .text error)]

/-- All fields. -/
def fields (e : TraceEvent) : List (String × Field) := ("message", .text e.message) :: e.details

end TraceEvent

end ScriptCore
