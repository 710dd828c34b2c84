import ScriptCore.Number.Double
import ScriptCore.Number.Shortest
import ScriptCore.Text.Digit

/-!
# How numbers are written

An integral number below `10 ^ 16` is written in full with one zero after the point. Any other
finite number takes its shortest digits: positional where the point falls within sixteen digits
or at most four zeros follow it, else with an exponent that has neither a plus nor a padding.
-/

namespace ScriptCore

/-- The decimal digits of an integer, with a minus where it is negative. -/
def Integer.text (n : Int64) : String := toString n.toInt

namespace Double

/-- Text of the digits `c` scaled by `10 ^ e`. -/
def scientific (c : Nat) (e : Int) : String :=
  let digits := toString c
  let point := (digits.length : Int) + e
  if 0 ≤ e ∧ point ≤ 16 then
    digits ++ String.ofList (List.replicate e.toNat '0') ++ ".0"
  else if 0 < point ∧ point ≤ 16 then
    (digits.take point.toNat).toString ++ "." ++ (digits.drop point.toNat).toString
  else if -5 < point ∧ point ≤ 0 then
    "0." ++ String.ofList (List.replicate (-point).toNat '0') ++ digits
  else
    let exponent := toString (point - 1)
    if digits.length = 1 then digits ++ "e" ++ exponent
    else (digits.take 1).toString ++ "." ++ (digits.drop 1).toString ++ "e" ++ exponent

/-- The text of a number. -/
def text (x : Double) : String :=
  let sign := if x.isNegative then "-" else ""
  if x.isNaN then sign ++ "nan"
  else if x.isInfinite then sign ++ "inf"
  else
    match x.toInteger? with
    | some n =>
      if n.natAbs < tenPow 16 then sign ++ toString n.natAbs ++ ".0"
      else
        let (c, e) := Shortest.digits x.significand x.scale
        sign ++ scientific c e
    | none =>
      let (c, e) := Shortest.digits x.significand x.scale
      sign ++ scientific c e

/-- The bits of a number in hexadecimal; numbers that are none have one form. -/
def bitsText (x : Double) : String :=
  if x.isNaN then "nan" else Digit.hex 16 x.bits.toNat

/-- The number with the bits that hexadecimal digits give. -/
def ofBitsText? (s : String) : Option Double := do return ⟨.ofNat (← Digit.ofHex? s)⟩

end Double

end ScriptCore
