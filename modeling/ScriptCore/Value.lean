import ScriptCore.Number.Notation

/-!
# Values

A value is nil, a boolean, a number, a string, or a reference to an object of the heap. Integers
and floats are one kind, numbers. References are equal exactly when they name one object.

`rawEq` is equality without handlers: numbers by value, strings by content, references by
identity. `Kind` is the classification that scripts see.
-/

namespace ScriptCore

/-- What scripts call the type of a value. -/
inductive Kind
  | nil | boolean | number | string | table | function | thread
deriving DecidableEq, Repr, Inhabited

namespace Kind

def name : Kind → String
  | .nil => "nil"
  | .boolean => "boolean"
  | .number => "number"
  | .string => "string"
  | .table => "table"
  | .function => "function"
  | .thread => "thread"

/-- All kinds, each at its index. -/
def all : List Kind := [.nil, .boolean, .number, .string, .table, .function, .thread]

def index (k : Kind) : Nat := k.ctorIdx

theorem all_index (k : Kind) : all[k.index]? = some k := by cases k <;> rfl

def ofName? (s : String) : Option Kind := all.find? (·.name == s)

end Kind

/-- A table of the heap. -/
structure TableId where
  index : Nat
deriving DecidableEq, Hashable, Repr, Inhabited

/-- A function of the heap. -/
structure FnId where
  index : Nat
deriving DecidableEq, Hashable, Repr, Inhabited

/-- A coroutine of the heap. -/
structure CoId where
  index : Nat
deriving DecidableEq, Hashable, Repr, Inhabited

/-- A variable cell of the heap. Cells are no values. -/
structure CellId where
  index : Nat
deriving DecidableEq, Hashable, Repr, Inhabited

/-! Every object has its own address, whatever its kind. -/

/-- The address of the object with index `i` of the `k`-th of four families. -/
def address (k i : Nat) : Nat := 0x555500000000 + 16 * (4 * i + k)

def TableId.address (t : TableId) : Nat := ScriptCore.address 0 t.index
def FnId.address (f : FnId) : Nat := ScriptCore.address 1 f.index
def CoId.address (c : CoId) : Nat := ScriptCore.address 2 c.index
def CellId.address (c : CellId) : Nat := ScriptCore.address 3 c.index

/-- The written form of an address. -/
def addressText (a : Nat) : String := "0x" ++ String.ofList (Nat.toDigits 16 a)

/-- A value. -/
inductive Val
  | nil
  | bool (b : Bool)
  | int (n : Int64)
  | float (x : Double)
  | str (s : String)
  | table (t : TableId)
  | fn (f : FnId)
  | co (c : CoId)
deriving DecidableEq, Hashable, Inhabited, Repr

namespace Val

def kind : Val → Kind
  | .nil => .nil
  | .bool _ => .boolean
  | .int _ | .float _ => .number
  | .str _ => .string
  | .table _ => .table
  | .fn _ => .function
  | .co _ => .thread

def typeName (v : Val) : String := v.kind.name

def isNil : Val → Bool
  | .nil => true
  | _ => false

/-- Everything but nil and false is true. -/
def truthy : Val → Bool
  | .nil | .bool false => false
  | _ => true

/-- The integer that a number stands for, if it stands for one. -/
def toInt? : Val → Option Int64
  | .int n => some n
  | .float x => x.toInt64?
  | _ => none

/-- A number as a float. -/
def toFloat? : Val → Option Double
  | .int n => some (.ofInt n.toInt)
  | .float x => some x
  | _ => none

def isNumber (v : Val) : Bool := v.kind == .number

def isTable (v : Val) : Bool := v.kind == .table

def isFunction (v : Val) : Bool := v.kind == .function

def toString? : Val → Option String
  | .str s => some s
  | _ => none

/-- The text of a number or a string. -/
def plainText? : Val → Option String
  | .int n => some (Integer.text n)
  | .float x => some x.text
  | .str s => some s
  | _ => none

/-- The address of a reference. -/
def address? : Val → Option Nat
  | .table t => some t.address
  | .fn f => some f.address
  | .co c => some c.address
  | _ => none

/-- Equality without handlers. -/
def rawEq : Val → Val → Bool
  | .float x, .float y => x.eq y
  | .int n, .float x | .float x, .int n => (Double.ofInt n.toInt).eq x
  | a, b => a == b

/-- An integer value. -/
def ofNat (n : Nat) : Val := .int (Int64.ofNat n)

end Val

end ScriptCore
