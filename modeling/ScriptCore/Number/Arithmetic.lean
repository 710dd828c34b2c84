import ScriptCore.Number.Double

/-!
# Arithmetic on binary64 numbers

Sum, difference, product and quotient of finite words are the exact results, rounded once by
`ofScaled`. Words for infinity follow the limits of the operations. Where there is no limit, or
an operand is no number, the result is `undefined`: the first operand that is no number, made
quiet, else `invalid`.

The remainder and the rounding down to an integer are exact. The power alone is left to the
mathematical library of the host, and only for two numbers.
-/

namespace ScriptCore.Double

/-! ## No number -/

/-- What an operation without a result gives. -/
def invalid : Double := ⟨0xfff8000000000000⟩

/-- The quiet form of a word that is no number. -/
def quiet (x : Double) : Double := ⟨x.bits ||| 0x0008000000000000⟩

/-- What an operation gives that has no number to give. -/
def undefined (x y : Double) : Double :=
  if x.isNaN then x.quiet else if y.isNaN then y.quiet else invalid

/-! ## Four operations -/

/-- The infinity of a sign. -/
def infinity (negative : Bool) : Double := ofSigned negative infiniteMagnitude

/-- The zero of a sign. -/
def zero (negative : Bool) : Double := ofSigned negative 0

/-- A finite word in units of `2 ^ unit`, where `unit` is at most its scale. -/
def inUnits (x : Double) (unit : Int) : Int :=
  let n : Int := x.significand * twoPow (x.scale - unit).toNat
  if x.isNegative then -n else n

/-- The sum of finite words. A sum of zero is negative only if both words are. -/
def addFinite (x y : Double) : Double :=
  let unit := min x.scale y.scale
  let sum := x.inUnits unit + y.inUnits unit
  if sum = 0 then zero (x.isNegative && y.isNegative)
  else ofScaled (sum < 0) sum.natAbs unit

def add (x y : Double) : Double :=
  if x.isNaN || y.isNaN then undefined x y
  else if x.isInfinite then
    if y.isInfinite && x.isNegative != y.isNegative then invalid else x
  else if y.isInfinite then y
  else addFinite x y

def sub (x y : Double) : Double :=
  if x.isNaN || y.isNaN then undefined x y else add x y.neg

def mul (x y : Double) : Double :=
  let negative := x.isNegative != y.isNegative
  if x.isNaN || y.isNaN then undefined x y
  else if x.isInfinite then if y.isZero then invalid else infinity negative
  else if y.isInfinite then if x.isZero then invalid else infinity negative
  else ofScaled negative (x.significand * y.significand) (x.scale + y.scale)

/-- The quotient of finite words with `y` not zero: so many binary digits of it that rounding
loses no more than they do, and a last digit that tells whether others follow. -/
def divFinite (negative : Bool) (x y : Double) : Double :=
  let shift := 64 + y.significand.log2
  let m := x.significand * twoPow shift
  let q := 2 * (m / y.significand) + if m % y.significand = 0 then 0 else 1
  ofScaled negative q (x.scale - y.scale - (shift + 1))

def div (x y : Double) : Double :=
  let negative := x.isNegative != y.isNegative
  if x.isNaN || y.isNaN then undefined x y
  else if x.isInfinite then if y.isInfinite then invalid else infinity negative
  else if y.isInfinite then zero negative
  else if y.isZero then if x.isZero then invalid else infinity negative
  else divFinite negative x y

/-! ## The power -/

/-- The word for one. -/
def one : Double := ⟨0x3ff0000000000000⟩

/-- Whether a word that is no number signals, that is, is not quiet. -/
def isSignaling (x : Double) : Bool := x.isNaN && x != x.quiet

/-- Whether a word stands for an odd integer. -/
def isOdd (x : Double) : Bool :=
  match x.toInteger? with
  | some n => n % 2 == 1
  | none => false

/-- The power where an operand is no number. One to any power and any power zero are one, unless
the operand that is no number signals. An odd power of a negative word that is no number turns
its sign, as it does for zeros and infinities. -/
def powOfNaN (x y : Double) : Double :=
  if y.isZero then if x.isSignaling then x.quiet else one
  else if x == one then if y.isSignaling then y.quiet else one
  else if y.isNaN || y.isInfinite then undefined x y
  else if x.isNegative && y.isOdd then x.quiet.neg
  else x.quiet

/-- The power; of two numbers it is what the host computes. -/
def pow (x y : Double) : Double :=
  if x.isNaN || y.isNaN then powOfNaN x y
  else
    let r := Float.pow (Float.ofBits x.bits) (Float.ofBits y.bits)
    if r.isNaN then invalid else ⟨r.toBits⟩

/-! ## Division with remainder -/

/-- The largest integral word at most `x`. -/
def floor (x : Double) : Double :=
  if x.isNaN then x.quiet
  else if !x.isFinite || 0 ≤ x.scale then x
  else
    let unit := twoPow (-x.scale).toNat
    let below := x.significand / unit
    if x.isNegative && x.significand % unit ≠ 0 then ofScaled true (below + 1) 0
    else ofScaled x.isNegative below 0

/-- The remainder of the division truncated towards zero; it is exact and has the sign of `x`. -/
def rem (x y : Double) : Double :=
  if x.isNaN || y.isNaN || x.isInfinite || y.isZero then undefined x y
  else if y.isInfinite then x
  else
    let unit := min x.scale y.scale
    let m := x.significand * twoPow (x.scale - unit).toNat
    let n := y.significand * twoPow (y.scale - unit).toNat
    ofScaled x.isNegative (m % n) unit

/-- The remainder of the division rounded down: it has the sign of `y`. -/
def mod (x y : Double) : Double :=
  let r := rem x y
  if !r.isZero && (lt r ⟨0⟩ != lt y ⟨0⟩) then add r y else r

/-- The quotient rounded down. -/
def floorDiv (x y : Double) : Double := (div x y).floor

end ScriptCore.Double
