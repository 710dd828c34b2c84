/-!
# Digits

Digits of the bases up to sixteen, in either case.
-/

namespace ScriptCore.Digit

/-- The value of a digit in bases up to sixteen. -/
def value? (c : Char) : Option Nat :=
  if '0' ≤ c ∧ c ≤ '9' then some (c.toNat - 48)
  else if 'a' ≤ c ∧ c ≤ 'f' then some (c.toNat - 87)
  else if 'A' ≤ c ∧ c ≤ 'F' then some (c.toNat - 55)
  else none

/-- The number that hexadecimal digits stand for. -/
def ofHex? (s : String) : Option Nat :=
  s.toList.foldlM (fun n c => return 16 * n + (← value? c)) 0

/-- A number in hexadecimal, with zeros in front up to a width. -/
def hex (width n : Nat) : String :=
  let digits := Nat.toDigits 16 n
  String.ofList (List.replicate (width - digits.length) '0' ++ digits)

end ScriptCore.Digit
