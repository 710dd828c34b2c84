import ScriptCore.Config
import ScriptCore.Proto
import ScriptCore.Results
import ScriptCore.Stack
import ScriptCore.Table
import ScriptCore.Trace

/-!
# The machine

The state of a run and the ways in which a step can end.

* `Heap` holds the objects that values refer to: tables, functions, coroutines, and the cells of
  captured variables.
* `World` is shared by all runtimes on one state: the globals, the metatables of types that are
  not tables, and the limits.
* `Thread` is one thread of control: its result channel, its stack, how many calls and
  non-resumable calls are in progress, and the running coroutine.
* `Unwind` is how a step ends early. A suspension collects a `Link` for every frame that it
  leaves; its chain has the outermost link first.

Functions of the host are a parameter `F`, and the state they keep is a parameter `S`.
-/

namespace ScriptCore

/-! ## Suspended frames -/

/-- What a frame needs to go on. -/
structure Saved where
  slots : List Slot
  top : Nat
  varargs : List Val
deriving DecidableEq, Inhabited

/-- The frame without slots. -/
def Saved.empty : Saved := ⟨[], 0, []⟩

/-- A frame that a suspension left: the function to re-enter, and where. -/
structure Link where
  function : FnId
  index : Nat
  saved : Saved
deriving DecidableEq, Inhabited

/-- A suspension on its way out. -/
structure Suspension where
  values : List Val
  /-- The frames left so far, outermost first. -/
  chain : List Link
deriving Inhabited

/-- How a step ends without a result. -/
inductive Unwind
  | suspend (s : Suspension)
  | fault (f : Fault)
  /-- Machine arithmetic left its range. -/
  | overflow
  /-- The fuel of the run is used up. -/
  | exhausted

/-! ## Objects -/

/-- The life of a coroutine. -/
inductive Coroutine
  /-- Its body is not yet entered. -/
  | fresh (body : Val)
  /-- Its last yield left these frames, outermost first. -/
  | suspended (chain : List Link)
  | running
  | normal
  | dead

namespace Coroutine

instance : Inhabited Coroutine := ⟨dead⟩

def status : Coroutine → Status
  | .fresh _ | .suspended _ => .suspended
  | .running => .running
  | .normal => .normal
  | .dead => .dead

/-- The number of suspended frames. -/
def depth : Coroutine → Nat
  | .suspended chain => chain.length
  | _ => 0

/-- The written form of a coroutine. -/
def text (c : Coroutine) : String := "Coroutine \x7b status: " ++ c.status.text ++ " \x7d"

end Coroutine

/-- Library functions that call nothing, or only through the machine. -/
inductive Builtin
  | assert | error | select | type | tostring | print | rawequal | rawget | rawset | rawlen
  | getmetatable | setmetatable
  | create | resume | yield | status | running | isyieldable | wrap
  | rawGetmetatable | rawSetmetatable | getupvalue | setupvalue | upvalueid | upvaluejoin
  | add3 | counterAdd
deriving DecidableEq, Repr

namespace Builtin

def name : Builtin → String
  | .assert => "assert"
  | .error => "error"
  | .select => "select"
  | .type => "type"
  | .tostring => "tostring"
  | .print => "print"
  | .rawequal => "rawequal"
  | .rawget => "rawget"
  | .rawset => "rawset"
  | .rawlen => "rawlen"
  | .getmetatable | .rawGetmetatable => "getmetatable"
  | .setmetatable | .rawSetmetatable => "setmetatable"
  | .create => "create"
  | .resume => "resume"
  | .yield => "yield"
  | .status => "status"
  | .running => "running"
  | .isyieldable => "isyieldable"
  | .wrap => "wrap"
  | .getupvalue => "getupvalue"
  | .setupvalue => "setupvalue"
  | .upvalueid => "upvalueid"
  | .upvaluejoin => "upvaluejoin"
  | .add3 => "add3"
  | .counterAdd => "counter_add"

def arity : Builtin → Arity
  | .running | .isyieldable => .fixed 0
  | .rawlen | .create | .status | .wrap | .rawGetmetatable => .fixed 1
  | .error | .rawget | .rawSetmetatable | .getupvalue | .upvalueid | .counterAdd => .fixed 2
  | .setupvalue | .add3 => .fixed 3
  | .upvaluejoin => .fixed 4
  | .assert | .select | .type | .tostring | .print | .rawequal | .rawset | .getmetatable
  | .setmetatable | .resume | .yield => .variadic

end Builtin

/-- What a protected call does with a fault. -/
inductive Protection
  /-- It hands out the value of the fault. -/
  | plain
  /-- It hands the value to a message handler first. -/
  | handler
deriving DecidableEq, Repr

namespace Protection

def name : Protection → String
  | .plain => "pcall"
  | .handler => "xpcall"

/-- The written form of a protection. -/
def text : Protection → String
  | .plain => "Plain"
  | .handler => "Handler"

end Protection

/-- Bodies written by hand against the frame interface. -/
inductive Routine
  /-- Counts down by plain calls; the packed form reads its arguments from the varargs. -/
  | recurse (packed : Bool)
  /-- Counts down by tail calls of itself. -/
  | tailStep
  /-- Counts down by tail calls that alternate between two functions. -/
  | bounce
  /-- Sums by calls staged in its own slots. -/
  | sharedSum (add3 : Val)
  /-- Yields the successor of what it receives, for ever. -/
  | echo
deriving DecidableEq

namespace Routine

def name : Routine → String
  | .recurse packed => if packed then "recurse_packed" else "recurse_fixed"
  | .tailStep => "tail_step"
  | .bounce => "bounce"
  | .sharedSum _ => "shared_sum"
  | .echo => "echo"

def layout : Routine → Layout
  | .recurse packed => if packed then .of 0 true 0 else .of 2 false 2
  | .tailStep => .of 3 false 3
  | .bounce => .of 4 false 4
  | .sharedSum _ => .of 1 false 6
  | .echo => .of 1 false 1

end Routine

/-- A function of the heap. -/
inductive Callable (F : Type)
  /-- A compiled body with the cells of its captured variables. -/
  | closure (proto : Proto) (cells : Array CellId)
  | builtin (b : Builtin)
  | protectedCall (p : Protection)
  /-- Each call resumes the coroutine. -/
  | wrapped (co : CoId)
  | routine (r : Routine)
  | host (f : F)

instance {F : Type} : Inhabited (Callable F) := ⟨.builtin .assert⟩

/-- What the machine has to know of the functions of a host. -/
class HostFunction (F : Type) where
  name : F → String
  arity : F → Arity
  isNative : F → Bool
  /-- The written form of a function. -/
  text : F → String
  /-- A captured variable, where the function shows one. -/
  upvalue? : F → Nat → Option (String × CellId)

namespace Callable

variable {F : Type} [HostFunction F]

def name : Callable F → String
  | .closure proto _ => proto.name
  | .builtin b => b.name
  | .protectedCall p => p.name
  | .wrapped _ => "wrap"
  | .routine r => r.name
  | .host f => HostFunction.name f

def arity : Callable F → Arity
  | .closure proto _ => proto.layout.arity
  | .builtin b => b.arity
  | .protectedCall _ | .wrapped _ => .variadic
  | .routine r => r.layout.arity
  | .host f => HostFunction.arity f

/-- Whether scripts see a built-in function. -/
def isNative : Callable F → Bool
  | .closure .. | .routine _ => false
  | .builtin _ | .protectedCall _ | .wrapped _ => true
  | .host f => HostFunction.isNative f

/-- The number of captured variables. -/
def upvalueCount : Callable F → Nat
  | .closure proto _ => proto.upvalues.length
  | _ => 0

/-- The name and the cell of a captured variable. -/
def upvalue? : Callable F → Nat → Option (String × CellId)
  | .closure proto cells, i => do return ((← proto.upvalues[i]?).name, ← cells[i]?)
  | .host f, i => HostFunction.upvalue? f i
  | _, _ => none

/-- Binds a captured variable to another cell, if there is such a variable. -/
def replaceUpvalue? (i : Nat) (cell : CellId) : Callable F → Option (Callable F)
  | .closure proto cells =>
    if i < cells.size then some (.closure proto (cells.setIfInBounds i cell)) else none
  | _ => none

end Callable

/-- The objects of a run. -/
structure Heap (F : Type) where
  tables : Array Table
  cells : Array Val
  functions : Array (Callable F)
  coroutines : Array Coroutine

namespace Heap

variable {F : Type}

def empty : Heap F := ⟨#[], #[], #[], #[]⟩

def table (h : Heap F) (t : TableId) : Table := h.tables.getD t.index .empty

def cell (h : Heap F) (c : CellId) : Val := h.cells.getD c.index .nil

def function (h : Heap F) (f : FnId) : Callable F := h.functions.getD f.index default

def coroutine (h : Heap F) (c : CoId) : Coroutine := h.coroutines.getD c.index .dead

variable [HostFunction F]

/-- The text of a value, without handlers. -/
def text (h : Heap F) : Val → String
  | .nil => "nil"
  | .bool b => toString b
  | .int n => Integer.text n
  | .float x => x.text
  | .str s => s
  | .table t => "table: " ++ addressText t.address
  | .fn f =>
    (if (h.function f).isNative then "function: builtin: " else "function: ") ++
      addressText f.address
  | .co c => "thread: " ++ addressText c.address

/-- The written form of a value. -/
def form (h : Heap F) : Val → String
  | .str s => Quoted.quote s
  | .fn f => "function<" ++ (h.function f).name ++ ">"
  | v => h.text v

/-- The written form of a function. -/
def functionForm (h : Heap F) (f : FnId) : String :=
  match h.function f with
  | .closure proto _ =>
    "Compiled(ProtoUnit \x7b name: " ++ Quoted.quote proto.name ++ ", upvalues: " ++
      toString proto.upvalues.length ++ " \x7d)"
  | .builtin b =>
    "NativeFunction \x7b name: " ++ Quoted.quote b.name ++ ", arity: " ++ b.arity.text ++ " \x7d"
  | .protectedCall p => "ProtectedCall \x7b protection: " ++ p.text ++ " \x7d"
  | .wrapped co => "Wrapped \x7b co: " ++ (h.coroutine co).text ++ " \x7d"
  | .routine (.recurse packed) => "Compiled(Recurse \x7b packed: " ++ toString packed ++ " \x7d)"
  | .routine .tailStep => "Compiled(TailStep)"
  | .routine .bounce => "Compiled(Bounce)"
  | .routine (.sharedSum add3) => "Compiled(SharedSum \x7b add3: " ++ h.form add3 ++ " \x7d)"
  | .routine .echo => "Compiled(Echo)"
  | .host f => HostFunction.text f

/-- The message of a fault. -/
def message (h : Heap F) (f : Fault) : String := h.text f.value

end Heap

/-! ## The state of a run -/

/-- What all runtimes on one state share. -/
structure World where
  globals : TableId
  /-- The metatables of types; a table has its own. -/
  typeMetatable : Kind → Option TableId
  config : Config

/-- One thread of control. -/
structure Thread where
  results : Results
  stack : Stack
  /-- Calls in progress. -/
  depth : Nat
  /-- Non-resumable calls in progress since the running coroutine was resumed. -/
  boundaries : Nat
  current : Option CoId

/-- A thread that has not run, with a stack of the configured size. -/
def Thread.ofConfig (c : Config) : Thread :=
  ⟨.empty, .ofCapacity c.initialStackSlots, 0, 0, none⟩

/-- A write to an object. -/
inductive Write
  /-- The entry of a table at a key in normal form. -/
  | entry (t : TableId) (key value : Val)
  /-- Entries of a table at consecutive indices. -/
  | entries (t : TableId) (first : Int) (values : List Val)
  | metatable (t : TableId) (meta? : Option TableId)
  /-- The value of a captured variable. -/
  | cell (c : CellId) (v : Val)
deriving DecidableEq, Repr

/-- The state of a run. -/
structure Machine (F S : Type) where
  heap : Heap F
  world : World
  thread : Thread
  /-- What was printed. -/
  output : String
  /-- The events so far, if they are recorded. -/
  trace : Option (Array TraceEvent)
  /-- The writes so far, if they are recorded. -/
  journal : Option (Array Write)
  /-- The state of the host. -/
  host : S

/-- A step of the machine. -/
abbrev M (F S : Type) := EStateM Unwind (Machine F S)

end ScriptCore
