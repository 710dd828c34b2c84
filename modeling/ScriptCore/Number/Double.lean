import ScriptCore.Number.Integer
import ScriptCore.Number.Power

/-!
# Binary64 numbers

A `Double` is a 64-bit word in the binary64 format. Words, not numbers, are the type, so the
sign of a not-a-number is kept.

* Reading: a finite word stands for `± significand * 2 ^ scale`, exactly.
* Writing: `ofScaled` gives the word nearest to `± m * 2 ^ e`, an exact half going to the even
  significand. `ofInt` is its integer case.
* Order: `order` places words on a line of integers; `lt`, `le` and `eq` compare places and
  refuse a not-a-number.
-/

namespace ScriptCore

/-- A word of the binary64 format. -/
structure Double where
  bits : UInt64
deriving DecidableEq, Hashable, Inhabited, Repr

namespace Double

/-! ## Reading a word -/

/-- Whether the sign bit is set. -/
def isNegative (x : Double) : Bool := twoPow 63 ≤ x.bits.toNat

/-- The word without its sign bit. -/
def magnitude (x : Double) : Nat := x.bits.toNat % twoPow 63

/-- The magnitude of both infinities; larger magnitudes are no numbers. -/
def infiniteMagnitude : Nat := 2047 * twoPow 52

def isNaN (x : Double) : Bool := infiniteMagnitude < x.magnitude

def isInfinite (x : Double) : Bool := x.magnitude == infiniteMagnitude

def isFinite (x : Double) : Bool := x.magnitude < infiniteMagnitude

def isZero (x : Double) : Bool := x.magnitude == 0

/-- The biased exponent field. -/
def exponent (x : Double) : Nat := x.magnitude / twoPow 52

/-- The fraction field. -/
def fraction (x : Double) : Nat := x.magnitude % twoPow 52

/-- A finite word stands for `± significand * 2 ^ scale`. -/
def significand (x : Double) : Nat :=
  if x.exponent = 0 then x.fraction else twoPow 52 + x.fraction

/-- A finite word stands for `± significand * 2 ^ scale`. -/
def scale (x : Double) : Int :=
  if x.exponent = 0 then -1074 else (x.exponent : Int) - 1075

/-! ## Writing a word -/

/-- The word with a given sign and magnitude. -/
def ofSigned (negative : Bool) (magnitude : Nat) : Double :=
  ⟨UInt64.ofNat (if negative then twoPow 63 + magnitude else magnitude)⟩

/-- `m / 2 ^ k` to the nearest integer, a half going to the even one. -/
def halveEven (m k : Nat) : Nat :=
  let q := m / twoPow k
  let r := m % twoPow k
  if 2 * r > twoPow k ∨ (2 * r = twoPow k ∧ q % 2 = 1) then q + 1 else q

/-- The word nearest to `± m * 2 ^ e`, a half going to the even significand, and infinity from
half a unit above the largest finite word on. -/
def ofScaled (negative : Bool) (m : Nat) (e : Int) : Double :=
  if m = 0 then ofSigned negative 0
  else
    let target := max (e + (m.log2 + 1 : Nat) - 53) (-1074)
    let q := if target ≤ e then m * twoPow (e - target).toNat else halveEven m (target - e).toNat
    ofSigned negative (min ((target + 1074).toNat * twoPow 52 + q) infiniteMagnitude)

/-- The word nearest to an integer. -/
def ofInt (n : Int) : Double := ofScaled (n < 0) n.natAbs 0

/-- The same number with the other sign. -/
def neg (x : Double) : Double := ⟨x.bits ^^^ 0x8000000000000000⟩

/-! ## Order -/

/-- The place of a word on the line: both zeros lie at 0, and steps between neighbours are 1. -/
def order (x : Double) : Int := if x.isNegative then -(x.magnitude : Int) else x.magnitude

/-- Both are numbers. -/
def comparable (x y : Double) : Bool := !x.isNaN && !y.isNaN

def lt (x y : Double) : Bool := comparable x y && x.order < y.order

def le (x y : Double) : Bool := comparable x y && x.order ≤ y.order

/-- Equality as numbers: the zeros are equal, and nothing equals a not-a-number. -/
def eq (x y : Double) : Bool := comparable x y && x.order == y.order

/-! ## Integers -/

/-- The integer that a finite word stands for, if it stands for one. -/
def toInteger? (x : Double) : Option Int :=
  if !x.isFinite then none
  else
    let size : Option Nat :=
      if 0 ≤ x.scale then some (x.significand * twoPow x.scale.toNat)
      else
        let unit := twoPow (-x.scale).toNat
        if x.significand % unit = 0 then some (x.significand / unit) else none
    size.map fun n => if x.isNegative then -(n : Int) else n

/-- The 64-bit integer that a word stands for, if it stands for one. -/
def toInt64? (x : Double) : Option Int64 :=
  x.toInteger?.bind Integer.ofInt?

end Double

end ScriptCore
