import ScriptCore.Text.Quoted

/-!
# Operators and register operations

A compiled body is a list of operations on the registers of its frame. `Op.maySuspend` names the
operations that may run a handler or call a function; the others always finish at once.
`Op.text` is the written form of an operation.
-/

namespace ScriptCore

/-- Entries of a metatable that the machine or the base library looks up. -/
inductive Event
  | index | newIndex | call
  | add | sub | mul | div | mod | pow | idiv | band | bor | bxor | shl | shr | concat
  | unm | bnot | len | eq | lt | le
  | toString | name | metatable
deriving DecidableEq, Repr, Inhabited

/-- The key of an event in a metatable. -/
def Event.key : Event → String
  | .index => "__index"
  | .newIndex => "__newindex"
  | .call => "__call"
  | .add => "__add"
  | .sub => "__sub"
  | .mul => "__mul"
  | .div => "__div"
  | .mod => "__mod"
  | .pow => "__pow"
  | .idiv => "__idiv"
  | .band => "__band"
  | .bor => "__bor"
  | .bxor => "__bxor"
  | .shl => "__shl"
  | .shr => "__shr"
  | .concat => "__concat"
  | .unm => "__unm"
  | .bnot => "__bnot"
  | .len => "__len"
  | .eq => "__eq"
  | .lt => "__lt"
  | .le => "__le"
  | .toString => "__tostring"
  | .name => "__name"
  | .metatable => "__metatable"

/-- Every event. -/
def Event.all : List Event :=
  [.index, .newIndex, .call, .add, .sub, .mul, .div, .mod, .pow, .idiv, .band, .bor, .bxor, .shl,
   .shr, .concat, .unm, .bnot, .len, .eq, .lt, .le, .toString, .name, .metatable]

def Event.ofKey? (s : String) : Option Event := Event.all.find? (·.key == s)

/-- Binary operators. -/
inductive BinOp
  | add | sub | mul | div | mod | pow | idiv | band | bor | bxor | shl | shr | concat
  | eq | ne | lt | le
deriving DecidableEq, Repr, Inhabited

namespace BinOp

def symbol : BinOp → String
  | .add => "+"
  | .sub => "-"
  | .mul => "*"
  | .div => "/"
  | .mod => "%"
  | .pow => "^"
  | .idiv => "//"
  | .band => "&"
  | .bor => "|"
  | .bxor => "~"
  | .shl => "<<"
  | .shr => ">>"
  | .concat => ".."
  | .eq => "=="
  | .ne => "~="
  | .lt => "<"
  | .le => "<="

/-- The name of the operator in the written form of an operation. -/
def name : BinOp → String
  | .add => "Add"
  | .sub => "Sub"
  | .mul => "Mul"
  | .div => "Div"
  | .mod => "Mod"
  | .pow => "Pow"
  | .idiv => "IDiv"
  | .band => "BAnd"
  | .bor => "BOr"
  | .bxor => "BXor"
  | .shl => "Shl"
  | .shr => "Shr"
  | .concat => "Concat"
  | .eq => "Eq"
  | .ne => "Ne"
  | .lt => "Lt"
  | .le => "Le"

/-- The handler that an operator looks for. Inequality asks for the handler of equality. -/
def event : BinOp → Event
  | .add => .add
  | .sub => .sub
  | .mul => .mul
  | .div => .div
  | .mod => .mod
  | .pow => .pow
  | .idiv => .idiv
  | .band => .band
  | .bor => .bor
  | .bxor => .bxor
  | .shl => .shl
  | .shr => .shr
  | .concat => .concat
  | .eq | .ne => .eq
  | .lt => .lt
  | .le => .le

def isBitwise : BinOp → Bool
  | .band | .bor | .bxor | .shl | .shr => true
  | _ => false

def isComparison : BinOp → Bool
  | .eq | .ne | .lt | .le => true
  | _ => false

/-- Every binary operator. -/
def all : List BinOp :=
  [.add, .sub, .mul, .div, .mod, .pow, .idiv, .band, .bor, .bxor, .shl, .shr, .concat, .eq, .ne,
   .lt, .le]

end BinOp

/-- Unary operators. -/
inductive UnOp
  | neg | bnot | len | not
deriving DecidableEq, Repr, Inhabited

namespace UnOp

def symbol : UnOp → String
  | .neg => "-"
  | .bnot => "~"
  | .len => "#"
  | .not => "not"

/-- The name of the operator in the written form of an operation. -/
def name : UnOp → String
  | .neg => "Neg"
  | .bnot => "BNot"
  | .len => "Len"
  | .not => "Not"

/-- The handler that an operator looks for. Negation of truth has none. -/
def event? : UnOp → Option Event
  | .neg => some .unm
  | .bnot => some .bnot
  | .len => some .len
  | .not => none

/-- Every unary operator. -/
def all : List UnOp := [.neg, .bnot, .len, .not]

end UnOp

/-- A register of a frame. -/
abbrev Reg := UInt16

/-- How many values an operand spans. -/
inductive Count
  /-- Exactly `n`. -/
  | fixed (n : UInt16)
  /-- Up to the live top that the operation before left. -/
  | open
deriving DecidableEq, Repr, Inhabited

/-- An operation of a compiled body. -/
inductive Op
  | nil (dst : Reg)
  | bool (dst : Reg) (value : Bool)
  | const (dst : Reg) (idx : UInt16)
  /-- Copies a value; a cell is read through. -/
  | move (dst src : Reg)
  /-- Gives `var` a fresh cell with the value of `src`. -/
  | varInit (var src : Reg)
  /-- Writes through the cell of `var`. -/
  | varStore (var src : Reg)
  | getUpval (dst : Reg) (idx : UInt16)
  | setUpval (idx : UInt16) (src : Reg)
  | closure (dst : Reg) (proto : UInt16)
  | newTable (dst : Reg)
  /-- Raw writes of the span at `base` to the indices from `first` on. -/
  | append (table base : Reg) (count : Count) (first : UInt32)
  | getGlobal (dst : Reg) (name : UInt16)
  | setGlobal (name : UInt16) (src : Reg)
  | index (dst object key : Reg)
  | newIndex (object key value : Reg)
  | binary (op : BinOp) (dst lhs rhs : Reg)
  | unary (op : UnOp) (dst src : Reg)
  | jump (dest : UInt32)
  /-- Jumps when the truth of `cond` equals `when`. -/
  | test (cond : Reg) (when : Bool) (dest : UInt32)
  /-- Calls register `func` with the span after it; the results land from `func` on. -/
  | call (func : Reg) (args results : Count)
  | tailCall (func : Reg) (args : Count)
  | ret (base : Reg) (count : Count)
  | vararg (dst : Reg) (count : Count)
deriving DecidableEq, Repr, Inhabited

namespace Op

/-- Whether the operation may run a handler or call a function. -/
def maySuspend : Op → Bool
  | .getGlobal .. | .setGlobal .. | .index .. | .newIndex .. | .binary .. | .call .. => true
  | .unary op .. => op != .not
  | _ => false

/-- The written form of a count. -/
def countText : Count → String
  | .fixed n => "Fixed(" ++ toString n ++ ")"
  | .open => "Open"

/-- The written form of an operation with its fields in order. -/
def form (name : String) (fields : List (String × String)) : String :=
  name ++ " \x7b " ++ ", ".intercalate (fields.map fun f => f.1 ++ ": " ++ f.2) ++ " \x7d"

/-- The written form of an operation. -/
def text : Op → String
  | .nil dst => form "Nil" [("dst", toString dst)]
  | .bool dst value => form "Bool" [("dst", toString dst), ("value", toString value)]
  | .const dst idx => form "Const" [("dst", toString dst), ("idx", toString idx)]
  | .move dst src => form "Move" [("dst", toString dst), ("src", toString src)]
  | .varInit var src => form "VarInit" [("var", toString var), ("src", toString src)]
  | .varStore var src => form "VarStore" [("var", toString var), ("src", toString src)]
  | .getUpval dst idx => form "GetUpval" [("dst", toString dst), ("idx", toString idx)]
  | .setUpval idx src => form "SetUpval" [("idx", toString idx), ("src", toString src)]
  | .closure dst proto => form "Closure" [("dst", toString dst), ("proto", toString proto)]
  | .newTable dst => form "NewTable" [("dst", toString dst)]
  | .append table base count first =>
    form "Append" [("table", toString table), ("base", toString base), ("count", countText count),
      ("first", toString first)]
  | .getGlobal dst name => form "GetGlobal" [("dst", toString dst), ("name", toString name)]
  | .setGlobal name src => form "SetGlobal" [("name", toString name), ("src", toString src)]
  | .index dst object key =>
    form "Index" [("dst", toString dst), ("object", toString object), ("key", toString key)]
  | .newIndex object key value =>
    form "NewIndex" [("object", toString object), ("key", toString key),
      ("value", toString value)]
  | .binary op dst lhs rhs =>
    form "Binary" [("op", op.name), ("dst", toString dst), ("lhs", toString lhs),
      ("rhs", toString rhs)]
  | .unary op dst src =>
    form "Unary" [("op", op.name), ("dst", toString dst), ("src", toString src)]
  | .jump dest => form "Jump" [("to", toString dest)]
  | .test cond when dest =>
    form "Test" [("cond", toString cond), ("when", toString when), ("to", toString dest)]
  | .call func args results =>
    form "Call" [("func", toString func), ("args", countText args),
      ("results", countText results)]
  | .tailCall func args => form "TailCall" [("func", toString func), ("args", countText args)]
  | .ret base count => form "Return" [("base", toString base), ("count", countText count)]
  | .vararg dst count => form "Vararg" [("dst", toString dst), ("count", countText count)]

end Op

end ScriptCore
