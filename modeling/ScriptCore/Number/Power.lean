/-!
# Powers of two and ten

The widths of words and the scales of numbers are powers of two, and decimal notation needs those
of ten.
-/

namespace ScriptCore

/-- The `k`-th power of two. -/
def twoPow (k : Nat) : Nat := Nat.pow 2 k

/-- The `k`-th power of ten. -/
def tenPow (k : Nat) : Nat := Nat.pow 10 k

end ScriptCore
