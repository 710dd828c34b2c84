import ScriptCore.Value
import ScriptCore.Op

/-!
# Faults

A fault ends a run with a cause. Every cause but a broken contract can be caught by a protected
call, which then hands the script `Fault.value`: the thrown value itself, else the words of the
fault.
-/

namespace ScriptCore

/-- What an operator wanted to do with an operand. -/
inductive Action
  | arithmetic | bitwise | concatenate | measure
deriving DecidableEq, Repr

def Action.words : Action → String
  | .arithmetic => "perform arithmetic on"
  | .bitwise => "perform bitwise operation on"
  | .concatenate => "concatenate"
  | .measure => "get length of"

/-- Why an operator has no result on numbers. -/
inductive NoResult
  | modZero | divZero | notInteger
deriving DecidableEq, Repr

def NoResult.words : NoResult → String
  | .modZero => "attempt to perform 'n%0'"
  | .divZero => "attempt to perform 'n//0'"
  | .notInteger => "number has no integer representation"

/-- Keys that no table holds. -/
inductive InvalidKey
  | nil | nan
deriving DecidableEq, Repr

def InvalidKey.words : InvalidKey → String
  | .nil => "nil"
  | .nan => "NaN"

/-- What is wrong with an argument. -/
inductive Complaint
  /-- There is no such argument. -/
  | missing
  /-- Another type was expected; `none` stands for no argument at all. -/
  | expected (what : String) (got : Option Kind)
  | notInteger
  | outOfRange
  | noLength
  | noUpvalue
deriving DecidableEq, Repr

def Complaint.words : Complaint → String
  | .missing => "value expected"
  | .expected what got =>
    what ++ " expected, got " ++ (match got with | some k => k.name | none => "no value")
  | .notInteger => "number has no integer representation"
  | .outOfRange => "index out of range"
  | .noLength => "table or string expected"
  | .noUpvalue => "invalid upvalue index"

/-- Why a coroutine cannot be resumed. -/
inductive NotResumable
  | dead | active
deriving DecidableEq, Repr

def NotResumable.words : NotResumable → String
  | .dead => "cannot resume dead coroutine"
  | .active => "cannot resume non-suspended coroutine"

/-- What is wrong with one operation of a body. -/
inductive Defect
  | register (r : Nat)
  | registers (first last : Nat)
  | constant (i : Nat)
  | notString (i : Nat)
  | upvalue (i : Nat)
  | target (dest : Nat)
  | notReified (slot : Nat)
  | captureNotReified (slot : Nat)
  | child (i : Nat)
  | varargInFixed
deriving DecidableEq, Repr

def Defect.words : Defect → String
  | .register r => s!"register {r} out of range"
  | .registers first last => s!"registers {first}..{last} out of range"
  | .constant i => s!"constant {i} out of range"
  | .notString i => s!"constant {i} is not a string"
  | .upvalue i => s!"upvalue {i} out of range"
  | .target dest => s!"jump target {dest} out of range"
  | .notReified slot => s!"slot {slot} is not reified"
  | .captureNotReified slot => s!"captured slot {slot} is not reified"
  | .child i => s!"proto {i} out of range"
  | .varargInFixed => "vararg access in a fixed-arity function"

/-- Ways to break the contract between bodies and the machine. -/
inductive Violation
  /-- The result channel was read while a tail call was pending. -/
  | pendingTailCall
  /-- A body declares more parameters than slots. -/
  | tooManyParams (body : String) (params slots : Nat)
  /-- An operation of a body does not fit the shape of its frame. -/
  | malformed (body : String) (pc : Nat) (defect : Defect)
  /-- A body has more items of a sort than an operand can name. -/
  | unaddressable (body : String) (count : Nat) (what : String) (limit : Nat)
  | noUpvalue (body : String) (idx : Nat)
  | noChild (body : String) (idx : Nat)
  /-- A closure captures a slot that holds no cell. -/
  | neverReified (child : String) (slot : Nat) (body : String)
  /-- A body is re-entered behind its last operation. -/
  | pastCode (body : String) (pc : Nat)
  /-- A body is re-entered at an operation that never suspends. -/
  | neverSuspends (body : String) (pc : Nat) (op : Op)
  | appendTarget (body : String) (pc : Nat)
  /-- A body is re-entered at its start. -/
  | entrySegment (body : String)
  | noSegment (body : String) (index : Nat)
  /-- A function that is never re-entered is re-entered. -/
  | notReenterable (name : String) (index : Nat)
  | notInteger (body : String) (kind : Kind)
  /-- A suspension left the outermost call. -/
  | suspendedAtTop
  /-- A host function reports a broken contract. -/
  | host (words : String)
deriving DecidableEq, Repr

def Violation.words : Violation → String
  | .pendingTailCall => "result channel used while a tail call is pending"
  | .tooManyParams body params slots => s!"'{body}' declares {params} params in {slots} slots"
  | .malformed body pc defect => s!"'{body}' pc {pc}: " ++ defect.words
  | .unaddressable body count what limit =>
    s!"'{body}' has {count} {what}, more than {limit} addressable"
  | .noUpvalue body idx => s!"'{body}' has no upvalue {idx}"
  | .noChild body idx => s!"'{body}' has no nested proto {idx}"
  | .neverReified child slot body =>
    s!"'{child}' captures slot {slot} of '{body}', which was never reified"
  | .pastCode body pc => s!"'{body}' resumed past its code at pc {pc}"
  | .neverSuspends body pc op =>
    s!"'{body}' resumed at pc {pc} into " ++ op.text ++ ", which cannot suspend"
  | .appendTarget body pc => s!"'{body}' pc {pc}: append target is not a table"
  | .entrySegment body => s!"'{body}' resumed into its entry segment"
  | .noSegment body index => s!"'{body}' has no segment {index}"
  | .notReenterable name index => s!"function '{name}' cannot resume at index {index}"
  | .notInteger body kind => s!"'{body}' expected an integer, got " ++ kind.name
  | .suspendedAtTop => "suspension reached the top-level driver"
  | .host words => words

/-- Why a run ends without results. -/
inductive Fault
  | notCallable (kind : Kind)
  | contract (violation : Violation)
  /-- A value thrown by a script or a library. -/
  | user (value : Val)
  | operand (action : Action) (kind : Kind)
  | compare (lhs rhs : Kind)
  | index (kind : Kind)
  | invalidKey (key : InvalidKey)
  | arithmetic (cause : NoResult)
  | argument (position : Nat) (function : String) (complaint : Complaint)
  | coroutine (cause : NotResumable)
  | yieldOutsideCoroutine
  | yieldAcrossBoundary (boundary : String)
  /-- The call depth is at its limit. -/
  | stackOverflow (depth : Nat)
deriving DecidableEq, Repr

namespace Fault

/-- Only a broken contract passes through protected calls. -/
def isCatchable : Fault → Bool
  | .contract _ => false
  | _ => true

/-- The name of the kind of a fault. -/
def kindName : Fault → String
  | .notCallable _ => "NotCallable"
  | .contract _ => "ContractViolation"
  | .user _ => "User"
  | .operand .. => "Operand"
  | .compare .. => "Compare"
  | .index _ => "Index"
  | .invalidKey _ => "InvalidKey"
  | .arithmetic _ => "Arithmetic"
  | .argument .. => "Argument"
  | .coroutine _ => "Coroutine"
  | .yieldOutsideCoroutine => "YieldOutsideCoroutine"
  | .yieldAcrossBoundary _ => "YieldAcrossBoundary"
  | .stackOverflow _ => "StackOverflow"

/-- What a protected call hands to the script. -/
def value : Fault → Val
  | .user v => v
  | .notCallable kind => .str ("attempt to call a " ++ kind.name ++ " value")
  | .contract violation => .str ("internal contract violation: " ++ violation.words)
  | .operand action kind =>
    .str ("attempt to " ++ action.words ++ " a " ++ kind.name ++ " value")
  | .compare lhs rhs =>
    .str ("attempt to compare " ++
      if lhs = rhs then "two " ++ lhs.name ++ " values" else lhs.name ++ " with " ++ rhs.name)
  | .index kind => .str ("attempt to index a " ++ kind.name ++ " value")
  | .invalidKey key => .str ("table index is " ++ key.words)
  | .arithmetic cause => .str cause.words
  | .argument position function complaint =>
    .str (s!"bad argument #{position} to '{function}' (" ++ complaint.words ++ ")")
  | .coroutine cause => .str cause.words
  | .yieldOutsideCoroutine => .str "attempt to yield from outside a coroutine"
  | .yieldAcrossBoundary boundary =>
    .str ("attempt to yield across a non-resumable call boundary (" ++ boundary ++ ")")
  | .stackOverflow depth => .str s!"stack overflow (call depth {depth})"

end Fault

end ScriptCore
