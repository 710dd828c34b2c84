import ScriptCore.Fault

/-!
# Compiled bodies

A `Proto` is the compiled form of a function: the shape of its frame, its constants and
operations, the bodies nested in it, and what it captures.

* `Proto.check` accepts a body whose every operand fits the declared shape. Register numbers
  have sixteen bits, and so has the number of the first argument register of a call: past the
  last register the check has no answer and stops with `overflow`.
* `Builder` makes a body step by step. Its indices are taken modulo `2 ^ 16`, so a table with
  more items than that is refused.
-/

namespace ScriptCore

/-- The shape of a frame. -/
structure Layout where
  /-- Parameters, in the first slots. -/
  params : Nat
  /-- Whether further arguments are kept. -/
  vararg : Bool
  /-- All slots, the parameters among them. -/
  slots : Nat
deriving DecidableEq, Repr, Inhabited

/-- How many arguments reach a function. -/
inductive Arity
  /-- Exactly `n`, filled up with nil or cut. -/
  | fixed (n : Nat)
  | variadic
deriving DecidableEq, Repr, Inhabited

namespace Arity

/-- The largest arity with an entry of its own. -/
def maxFixed : Nat := 5

/-- The arity of a function with `n` parameters. -/
def ofParams (n : Nat) : Arity := if n ≤ maxFixed then .fixed n else .variadic

/-- The written form of an arity. -/
def text : Arity → String
  | .fixed n => s!"Fixed({n})"
  | .variadic => "Variadic"

end Arity

namespace Layout

/-- A frame has room for its parameters at least. -/
def of (params : Nat) (vararg : Bool) (slots : Nat) : Layout := ⟨params, vararg, max slots params⟩

def arity (l : Layout) : Arity := if l.vararg then .variadic else .ofParams l.params

end Layout

/-- Where a nested body finds a captured variable. -/
inductive Capture
  /-- In a slot of the frame around it. -/
  | slot (r : Reg)
  /-- Among what the function around it has captured. -/
  | upvalue (idx : UInt16)
deriving DecidableEq, Repr, Inhabited

/-- A captured variable. -/
structure UpvalueDesc where
  name : String
  capture : Capture
deriving DecidableEq, Repr, Inhabited

/-- The compiled form of a function. -/
structure Proto where
  name : String
  params : Nat
  vararg : Bool
  slots : Nat
  /-- Whether a slot holds a variable that a nested body captures. -/
  reified : Array Bool
  constants : Array Val
  code : Array Op
  children : List Proto
  upvalues : List UpvalueDesc
deriving Inhabited

/-- Why the check of a body does not accept it. -/
inductive Rejection
  | violation (v : Violation)
  /-- A register number left its sixteen bits. -/
  | overflow
deriving DecidableEq, Repr

/-- The number of the register after `r`, if there is one. -/
def Reg.next? (r : Reg) : Option Nat := if r.toNat + 1 < twoPow 16 then some (r.toNat + 1) else none

namespace Proto

/-- The body without operations that has a given name. -/
def ofName (name : String) : Proto := ⟨name, 0, false, 0, #[], #[], #[], [], []⟩

def layout (p : Proto) : Layout := .of p.params p.vararg p.slots

def isReified (p : Proto) (slot : Nat) : Bool := p.reified.getD slot false

/-! ## Checks of one operand -/

/-- Refuses with a defect unless a condition holds. -/
def demand (p : Proto) (pc : Nat) (ok : Bool) (defect : Defect) : Except Rejection Unit :=
  if ok then .ok () else .error (.violation (.malformed p.name pc defect))

def checkReg (p : Proto) (pc : Nat) (r : Reg) : Except Rejection Unit :=
  p.demand pc (r.toNat < p.slots) (.register r.toNat)

/-- A span of known length ends inside the frame; any span starts at most at its end. -/
def checkSpan (p : Proto) (pc base : Nat) : Count → Except Rejection Unit
  | .fixed n => do
    p.demand pc (base + n.toNat ≤ p.slots) (.registers base (base + n.toNat))
    p.demand pc (base ≤ p.slots) (.register base)
  | .open => p.demand pc (base ≤ p.slots) (.register base)

/-- The span after a register. -/
def checkSpanAfter (p : Proto) (pc : Nat) (r : Reg) (count : Count) : Except Rejection Unit :=
  match Reg.next? r with
  | some first => p.checkSpan pc first count
  | none => .error .overflow

def checkConstant (p : Proto) (pc : Nat) (idx : UInt16) : Except Rejection Unit :=
  p.demand pc (idx.toNat < p.constants.size) (.constant idx.toNat)

/-- A global's name is a string constant. -/
def checkName (p : Proto) (pc : Nat) (idx : UInt16) : Except Rejection Unit :=
  p.demand pc ((p.constants[idx.toNat]?.bind Val.toString?).isSome) (.notString idx.toNat)

def checkUpvalue (p : Proto) (pc : Nat) (idx : UInt16) : Except Rejection Unit :=
  p.demand pc (idx.toNat < p.upvalues.length) (.upvalue idx.toNat)

/-- A jump may lead to the end of the code. -/
def checkTarget (p : Proto) (pc : Nat) (dest : UInt32) : Except Rejection Unit :=
  p.demand pc (dest.toNat ≤ p.code.size) (.target dest.toNat)

/-- A nested body captures reified slots and upvalues that are there. -/
def checkCaptures (p : Proto) (pc : Nat) : List UpvalueDesc → Except Rejection Unit
  | [] => .ok ()
  | d :: ds => do
    match d.capture with
    | .slot r =>
      p.checkReg pc r
      p.demand pc (p.isReified r.toNat) (.captureNotReified r.toNat)
    | .upvalue idx => p.checkUpvalue pc idx
    p.checkCaptures pc ds

/-! ## Checks of a body -/

/-- Checks the operands of one operation, from left to right. -/
def checkOp (p : Proto) (pc : Nat) : Op → Except Rejection Unit
  | .nil dst | .bool dst _ | .newTable dst => p.checkReg pc dst
  | .const dst idx => do p.checkReg pc dst; p.checkConstant pc idx
  | .move dst src => do p.checkReg pc dst; p.checkReg pc src
  | .varInit var src | .varStore var src => do
    p.checkReg pc var
    p.checkReg pc src
    p.demand pc (p.isReified var.toNat) (.notReified var.toNat)
  | .getUpval dst idx => do p.checkReg pc dst; p.checkUpvalue pc idx
  | .setUpval idx src => do p.checkReg pc src; p.checkUpvalue pc idx
  | .closure dst child => do
    p.checkReg pc dst
    match p.children[child.toNat]? with
    | some q => p.checkCaptures pc q.upvalues
    | none => p.demand pc false (.child child.toNat)
  | .append table base count _ => do p.checkReg pc table; p.checkSpan pc base.toNat count
  | .getGlobal dst name => do p.checkReg pc dst; p.checkName pc name
  | .setGlobal name src => do p.checkReg pc src; p.checkName pc name
  | .index dst object key => do
    p.checkReg pc dst; p.checkReg pc object; p.checkReg pc key
  | .newIndex object key value => do
    p.checkReg pc object; p.checkReg pc key; p.checkReg pc value
  | .binary _ dst lhs rhs => do p.checkReg pc dst; p.checkReg pc lhs; p.checkReg pc rhs
  | .unary _ dst src => do p.checkReg pc dst; p.checkReg pc src
  | .jump dest => p.checkTarget pc dest
  | .test cond _ dest => do p.checkReg pc cond; p.checkTarget pc dest
  | .call func args results => do
    p.checkReg pc func
    p.checkSpanAfter pc func args
    p.checkSpan pc func.toNat results
  | .tailCall func args => do p.checkReg pc func; p.checkSpanAfter pc func args
  | .ret base count => p.checkSpan pc base.toNat count
  | .vararg dst count => do
    p.demand pc p.vararg .varargInFixed
    p.checkSpan pc dst.toNat count

/-- Checks a list of operations that starts at `pc`. -/
def checkCode (p : Proto) (pc : Nat) : List Op → Except Rejection Unit
  | [] => .ok ()
  | op :: ops => do p.checkOp pc op; p.checkCode (pc + 1) ops

/-- Checks a body without the bodies nested in it. -/
def checkSelf (p : Proto) : Except Rejection Unit := do
  if p.slots < p.params then
    throw (.violation (.tooManyParams p.name p.params p.slots))
  p.checkCode 0 p.code.toList

mutual

/-- Checks a body, then the bodies nested in it. -/
def check : Proto → Except Rejection Unit
  | ⟨name, params, vararg, slots, reified, constants, code, children, upvalues⟩ => do
    checkSelf ⟨name, params, vararg, slots, reified, constants, code, children, upvalues⟩
    checkAll children

/-- Checks bodies in order. -/
def checkAll : List Proto → Except Rejection Unit
  | [] => .ok ()
  | p :: ps => do check p; checkAll ps

end

end Proto

/-! ## Building a body -/

/-- A body under construction. -/
structure Builder where
  name : String
  params : Nat
  vararg : Bool
  slots : Nat
  reified : Array Bool
  constants : Array Val
  code : Array Op
  children : Array Proto
  upvalues : Array UpvalueDesc

namespace Builder

def ofName (name : String) : Builder := ⟨name, 0, false, 0, #[], #[], #[], #[], #[]⟩

/-- The body as it stands. -/
def proto (b : Builder) : Proto :=
  ⟨b.name, b.params, b.vararg, b.slots, b.reified, b.constants, b.code, b.children.toList,
    b.upvalues.toList⟩

def withParams (b : Builder) (n : Nat) : Builder := { b with params := n }

def withVararg (b : Builder) : Builder := { b with vararg := true }

def withSlots (b : Builder) (n : Nat) : Builder := { b with slots := n }

/-- Marks a slot as captured by a nested body. -/
def reify (b : Builder) (slot : Nat) : Builder :=
  let flags := b.reified
  let flags := flags ++ Array.replicate (slot + 1 - flags.size) false
  { b with reified := flags.setIfInBounds slot true }

def capture (b : Builder) (name : String) (capture : Capture) : Builder :=
  { b with upvalues := b.upvalues.push ⟨name, capture⟩ }

/-- Adds a constant and tells its index. -/
def constant (b : Builder) (v : Val) : UInt16 × Builder :=
  (UInt16.ofNat b.constants.size, { b with constants := b.constants.push v })

/-- Adds a nested body and tells its index. -/
def child (b : Builder) (p : Proto) : UInt16 × Builder :=
  (UInt16.ofNat b.children.size, { b with children := b.children.push p })

/-- Adds an operation and tells its place. -/
def emit (b : Builder) (op : Op) : UInt32 × Builder :=
  (UInt32.ofNat b.code.size, { b with code := b.code.push op })

/-- The place of the next operation. -/
def here (b : Builder) : UInt32 := UInt32.ofNat b.code.size

/-- An operation with a new jump target; only jumps and tests have one. -/
def retarget (dest : UInt32) : Op → Op
  | .jump _ => .jump dest
  | .test cond when _ => .test cond when dest
  | op => op

/-- Points the jump or test at `pc` to `dest`. -/
def patch (b : Builder) (pc dest : UInt32) : Builder :=
  { b with code := b.code.modify pc.toNat (retarget dest) }

/-- How many items of one sort an operand can name. -/
def addressable : Nat := twoPow 16

/-- The finished body, if its tables can be addressed and its operands fit. -/
def build (b : Builder) : Except Rejection Proto := do
  let tables := [("constants", b.constants.size), ("nested protos", b.children.size),
    ("upvalues", b.upvalues.size)]
  match tables.find? fun t => addressable < t.2 with
  | some (what, count) => throw (.violation (.unaddressable b.name count what addressable))
  | none =>
    b.proto.check
    return b.proto

end Builder

end ScriptCore
