import ScriptCore.Args

/-!
# The debug library

Metatables without protection, and captured variables of functions. Indices of captured
variables count from 1.
-/

namespace ScriptCore.Debug

open Machine Args

variable {F S : Type} [HostFunction F]

/-- The captured variable number `n` of a function. -/
def upvalueAt (f : FnId) (n : Int64) : M F S (Option (String × CellId)) := do
  if n.toInt < 1 then return none
  return (← functionAt f).upvalue? (n.toInt - 1).toNat

/-- A function, the index of one of its captured variables, and its cell. -/
def checkUpvalue (args : View) (position : Nat) (function : String) :
    M F S (FnId × Nat × CellId) := do
  let f ← checkFunction args position function
  let n ← checkInt args (position + 1) function
  match ← upvalueAt f n with
  | some (_, cell) => return (f, (n.toInt - 1).toNat, cell)
  | none => fail (.argument (position + 1) function .noUpvalue)

def getmetatable (args : View) : M F S Unit := do
  match ← metatableOf (← arg args 1) with
  | some t => give (.table t)
  | none => give .nil

/-- Sets the metatable of a table, or of the type of any other value. -/
def setmetatable (args : View) : M F S Unit := do
  let v ← arg args 1
  let next ← optTable args 2 "setmetatable"
  match v with
  | .table t => setMetatable t next
  | v => setTypeMetatable v.kind next
  give v

def getupvalue (args : View) : M F S Unit := do
  let f ← checkFunction args 1 "getupvalue"
  let n ← checkInt args 2 "getupvalue"
  match ← upvalueAt f n with
  | some (name, cell) => giveAll [.str name, ← cellAt cell]
  | none => giveAll []

def setupvalue (args : View) : M F S Unit := do
  let f ← checkFunction args 1 "setupvalue"
  let n ← checkInt args 2 "setupvalue"
  match ← upvalueAt f n with
  | some (name, cell) =>
    putCell cell (← arg args 3)
    give (.str name)
  | none => giveAll []

/-- The identity of a cell, as a number. -/
def upvalueid (args : View) : M F S Unit := do
  let (_, _, cell) ← checkUpvalue args 1 "upvalueid"
  give (Val.ofNat cell.address)

/-- Binds a captured variable of one function to the cell of another. -/
def upvaluejoin (args : View) : M F S Unit := do
  let (f, i, _) ← checkUpvalue args 1 "upvaluejoin"
  let (_, _, cell) ← checkUpvalue args 3 "upvaluejoin"
  match (← functionAt f).replaceUpvalue? i cell with
  | some c => putFunction f c
  | none => fail (.argument 2 "upvaluejoin" .noUpvalue)
  giveAll []

end ScriptCore.Debug
