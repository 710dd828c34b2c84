/-!
# 64-bit integers

Sums, differences and products of `Int64` wrap. Division rounds down, the remainder has the sign
of the divisor, and a shift moves the unsigned word by any integer count.
-/

namespace ScriptCore.Integer

/-- The remainder of the division rounded down. -/
def floorMod (a b : Int64) : Int64 :=
  let r := a % b
  if r ≠ 0 ∧ (r ^^^ b) < 0 then r + b else r

/-- The quotient rounded down. -/
def floorDiv (a b : Int64) : Int64 :=
  let q := a / b
  if a % b ≠ 0 ∧ (a ^^^ b) < 0 then q - 1 else q

/-- Shifts the unsigned word left by `n`, right where `n` is negative; a count of 64 or more
leaves no bit. -/
def shiftLeft (a n : Int64) : Int64 :=
  if n ≤ -64 ∨ 64 ≤ n then 0
  else if 0 ≤ n then (a.toUInt64 <<< n.toUInt64).toInt64
  else (a.toUInt64 >>> (-n).toUInt64).toInt64

/-- Shifts the unsigned word right by `n`. -/
def shiftRight (a n : Int64) : Int64 := shiftLeft a (-n)

/-- The 64-bit integer that an integer is, if it is one. -/
def ofInt? (n : Int) : Option Int64 :=
  let word := Int64.ofInt n
  if word.toInt = n then some word else none

/-- The sum, where it is a 64-bit integer. -/
def checkedAdd (a b : Int64) : Option Int64 := ofInt? (a.toInt + b.toInt)

/-- The difference, where it is a 64-bit integer. -/
def checkedSub (a b : Int64) : Option Int64 := ofInt? (a.toInt - b.toInt)

end ScriptCore.Integer
