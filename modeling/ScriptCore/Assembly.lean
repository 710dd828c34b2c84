import ScriptCore.Op

/-!
# Assembly

An operation can be given as a name and a list of words: numbers, truth values and names, in the
order of the fields. An open count is the word `open`, and operators go by their names in lower
case.
-/

namespace ScriptCore

/-- The operator with a name in lower case. -/
def BinOp.ofWord? (s : String) : Option BinOp := BinOp.all.find? (·.name.toLower == s)

/-- The operator with a name in lower case. -/
def UnOp.ofWord? (s : String) : Option UnOp := UnOp.all.find? (·.name.toLower == s)

/-- A field of an operation. -/
inductive Word
  | number (n : Nat)
  | truth (b : Bool)
  | name (s : String)
deriving DecidableEq, Repr

namespace Word

def reg? : Word → Option UInt16
  | .number n => some (.ofNat n)
  | _ => none

def position? : Word → Option UInt32
  | .number n => some (.ofNat n)
  | _ => none

def truth? : Word → Option Bool
  | .truth b => some b
  | _ => none

def count? : Word → Option Count
  | .number n => some (.fixed (.ofNat n))
  | .name "open" => some .open
  | _ => none

def binOp? : Word → Option BinOp
  | .name s => BinOp.ofWord? s
  | _ => none

def unOp? : Word → Option UnOp
  | .name s => UnOp.ofWord? s
  | _ => none

end Word

/-- The operation with a name and fields. -/
def Op.assemble? : String → List Word → Option Op
  | "Nil", [a] => return .nil (← a.reg?)
  | "Bool", [a, b] => return .bool (← a.reg?) (← b.truth?)
  | "Const", [a, b] => return .const (← a.reg?) (← b.reg?)
  | "Move", [a, b] => return .move (← a.reg?) (← b.reg?)
  | "VarInit", [a, b] => return .varInit (← a.reg?) (← b.reg?)
  | "VarStore", [a, b] => return .varStore (← a.reg?) (← b.reg?)
  | "GetUpval", [a, b] => return .getUpval (← a.reg?) (← b.reg?)
  | "SetUpval", [a, b] => return .setUpval (← a.reg?) (← b.reg?)
  | "Closure", [a, b] => return .closure (← a.reg?) (← b.reg?)
  | "NewTable", [a] => return .newTable (← a.reg?)
  | "Append", [a, b, c, d] =>
    return .append (← a.reg?) (← b.reg?) (← c.count?) (← d.position?)
  | "GetGlobal", [a, b] => return .getGlobal (← a.reg?) (← b.reg?)
  | "SetGlobal", [a, b] => return .setGlobal (← a.reg?) (← b.reg?)
  | "Index", [a, b, c] => return .index (← a.reg?) (← b.reg?) (← c.reg?)
  | "NewIndex", [a, b, c] => return .newIndex (← a.reg?) (← b.reg?) (← c.reg?)
  | "Binary", [a, b, c, d] =>
    return .binary (← a.binOp?) (← b.reg?) (← c.reg?) (← d.reg?)
  | "Unary", [a, b, c] => return .unary (← a.unOp?) (← b.reg?) (← c.reg?)
  | "Jump", [a] => return .jump (← a.position?)
  | "Test", [a, b, c] => return .test (← a.reg?) (← b.truth?) (← c.position?)
  | "Call", [a, b, c] => return .call (← a.reg?) (← b.count?) (← c.count?)
  | "TailCall", [a, b] => return .tailCall (← a.reg?) (← b.count?)
  | "Return", [a, b] => return .ret (← a.reg?) (← b.count?)
  | "Vararg", [a, b] => return .vararg (← a.reg?) (← b.count?)
  | _, _ => none

end ScriptCore
