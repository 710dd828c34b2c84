import ScriptCore.Fault

/-!
# The result channel

A finished call leaves its results in the channel. A body may instead leave a tail call: its
target, with the arguments in place of results. While a tail call is pending the values are no
results, so reading them is a broken contract.
-/

namespace ScriptCore

/-- The values of the last finished call, or a pending tail call. -/
structure Results where
  values : List Val
  pending : Option Val
deriving Inhabited

namespace Results

def empty : Results := ⟨[], none⟩

/-- Makes `values` the results. -/
def ofValues (values : List Val) : Results := ⟨values, none⟩

/-- Asks for a call of `target` in place of results. -/
def tailCall (target : Val) (args : List Val) : Results := ⟨args, some target⟩

def isTailCall (r : Results) : Bool := r.pending.isSome

/-- The results, unless a tail call is pending. -/
def read (r : Results) : Except Violation (List Val) :=
  if r.isTailCall then .error .pendingTailCall else .ok r.values

/-- The result at an index, nil past the end. -/
def get (r : Results) (i : Nat) : Except Violation Val := do
  return (← r.read).getD i .nil

/-- Adds a last result. -/
def append (r : Results) (v : Val) : Except Violation Results := do
  return ofValues ((← r.read) ++ [v])

/-- Adds a first result. -/
def prepend (r : Results) (v : Val) : Except Violation Results := do
  return ofValues (v :: (← r.read))

/-- The results, and the empty channel. -/
def take (r : Results) : Except Violation (List Val × Results) := do
  return (← r.read, empty)

/-- The pending target, and the channel that holds its arguments alone. -/
def takeTailCall (r : Results) : Option Val × Results := (r.pending, ⟨r.values, none⟩)

end Results

end ScriptCore
