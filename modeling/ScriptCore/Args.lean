import ScriptCore.Step

/-!
# Arguments of native functions

Positions count from 1. A check gives the argument in its expected form, or an argument fault.
-/

namespace ScriptCore.Args

open Machine

variable {F S : Type}

/-- The argument at a position, nil where there is none. -/
def arg (args : View) (position : Nat) : M F S Val :=
  if position = 0 ∨ args.top < position then pure .nil else valueAt args (position - 1)

/-- The fault of an argument that is of another type. -/
def mismatch {α : Type} (args : View) (position : Nat) (function what : String) : M F S α := do
  let got ← if args.top < position then pure none
    else do pure (some (← arg args position).kind)
  fail (.argument position function (.expected what got))

/-- Any value, but not a missing argument. -/
def checkAny (args : View) (position : Nat) (function : String) : M F S Val := do
  if args.top < position then fail (.argument position function .missing)
  arg args position

def checkTable (args : View) (position : Nat) (function : String) : M F S TableId := do
  match ← arg args position with
  | .table t => return t
  | _ => mismatch args position function "table"

def checkFunction (args : View) (position : Nat) (function : String) : M F S FnId := do
  match ← arg args position with
  | .fn f => return f
  | _ => mismatch args position function "function"

def checkCoroutine (args : View) (position : Nat) (function : String) : M F S CoId := do
  match ← arg args position with
  | .co c => return c
  | _ => mismatch args position function "coroutine"

/-- A number that stands for an integer. -/
def checkInt (args : View) (position : Nat) (function : String) : M F S Int64 := do
  match ← arg args position with
  | .int n => return n
  | .float x =>
    match x.toInt64? with
    | some n => return n
    | none => fail (.argument position function .notInteger)
  | _ => mismatch args position function "number"

/-- Nil stands for a default. -/
def optInt (args : View) (position : Nat) (function : String) (default : Int64) :
    M F S Int64 := do
  if (← arg args position).isNil then return default
  checkInt args position function

/-- Nil or a table. -/
def optTable (args : View) (position : Nat) (function : String) : M F S (Option TableId) := do
  match ← arg args position with
  | .nil => return none
  | .table t => return some t
  | _ => mismatch args position function "nil or table"

end ScriptCore.Args
