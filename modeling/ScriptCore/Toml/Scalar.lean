import ScriptCore.Number.Power
import ScriptCore.Text.Digit

/-!
# TOML scalars without quotes

Booleans, integers, floats, dates and times. A scalar is read from the list of its characters.
An underscore may stand between two digits, and a decimal number has no leading zero. A number
must be within range: integers have 128 bits, and a float must not round to infinity.
-/

namespace ScriptCore.Toml

/-- What a scalar without quotes stands for. -/
inductive Scalar
  | integer (n : Int)
  | other
deriving DecidableEq, Repr

namespace Scalar

/-- The number that digits of a base stand for; `after` tells whether a digit came just
before. -/
def number? (base : Nat) (n : Nat) (after : Bool) : List Char → Option Nat
  | [] => if after then some n else none
  | '_' :: cs => if after ∧ cs.head? ≠ some '_' then number? base n false cs else none
  | c :: cs =>
    match Digit.value? c with
    | some d => if d < base then number? base (base * n + d) true cs else none
    | none => none

/-- A decimal number without a leading zero. -/
def decimal? (cs : List Char) : Option Nat :=
  match cs with
  | '0' :: _ :: _ => none
  | cs => number? 10 0 false cs

/-- The sign of a number and the rest. -/
def sign : List Char → Int × List Char
  | '-' :: cs => (-1, cs)
  | '+' :: cs => (1, cs)
  | cs => (1, cs)

/-- Integers are those of 128 bits, signed or not. -/
def inRange (n : Int) : Option Scalar :=
  if -(twoPow 127 : Int) ≤ n ∧ n < twoPow 128 then some (.integer n) else none

def integer? (cs : List Char) : Option Scalar :=
  match cs with
  | '0' :: 'x' :: cs => do inRange (← number? 16 0 false cs)
  | '0' :: 'o' :: cs => do inRange (← number? 8 0 false cs)
  | '0' :: 'b' :: cs => do inRange (← number? 2 0 false cs)
  | cs =>
    let (s, cs) := sign cs
    do inRange (s * (← decimal? cs))

/-- The characters before the first one of a class, and the rest from there on. -/
def cut (p : Char → Bool) (cs : List Char) : List Char × List Char :=
  (cs.takeWhile (!p ·), cs.dropWhile (!p ·))

/-- Half a unit above the largest finite float; from here on numbers round to infinity. -/
def floatBound : Nat := (twoPow 54 - 1) * twoPow 970

/-- Whether `m * 10 ^ e` rounds to a finite float. The cases at the ends spare the power: the
number is above the bound, or below one. -/
def isFinite (m : Nat) : Int → Bool
  | .ofNat e => if 400 < e then m == 0 else m * tenPow e < floatBound
  | .negSucc k => m.log2 < 3 * k || m < floatBound * tenPow (k + 1)

/-- An exponent; it is zero if nothing is written. -/
def exponent? : List Char → Option Int
  | [] => some 0
  | _ :: cs =>
    let (s, cs) := sign cs
    do return s * (← number? 10 0 false cs)

/-- A whole part with a fraction, an exponent or both. -/
def isFloat (cs : List Char) : Bool :=
  let cs := (sign cs).2
  if cs = "inf".toList ∨ cs = "nan".toList then true
  else
    let (whole, rest) := cut (fun c => c == '.' || c == 'e' || c == 'E') cs
    match decimal? whole, rest with
    | some n, '.' :: rest =>
      let (fraction, rest) := cut (fun c => c == 'e' || c == 'E') rest
      match number? 10 n false fraction, exponent? rest with
      | some m, some e => isFinite m (e - fraction.countP Char.isDigit)
      | _, _ => false
    | some n, _ :: _ =>
      match exponent? rest with
      | some e => isFinite n e
      | none => false
    | _, _ => false

/-- A number of exactly some digits. -/
def fixedDigits? (n : Nat) (cs : List Char) : Option Nat :=
  if cs.length = n ∧ cs.all Char.isDigit then number? 10 0 false cs else none

/-- The days of a month. -/
def daysOf (year month : Nat) : Nat :=
  if month = 2 then
    if year % 4 = 0 ∧ (year % 100 ≠ 0 ∨ year % 400 = 0) then 29 else 28
  else if month = 4 ∨ month = 6 ∨ month = 9 ∨ month = 11 then 30
  else 31

/-- A date such as `1979-05-27`. -/
def isDate (cs : List Char) : Bool :=
  match fixedDigits? 4 (cs.take 4), cs.drop 4, fixedDigits? 2 ((cs.drop 5).take 2),
      cs.drop 7, fixedDigits? 2 (cs.drop 8) with
  | some y, '-' :: _, some m, '-' :: _, some d =>
    1 ≤ m && m ≤ 12 && 1 ≤ d && d ≤ daysOf y m
  | _, _, _, _, _ => false

/-- The seconds of a time such as `:00` or `:00.5`; they may be left out. -/
def isSeconds : List Char → Bool
  | [] => true
  | ':' :: cs =>
    match fixedDigits? 2 (cs.take 2), cs.drop 2 with
    | some s, [] => s ≤ 60
    | some s, '.' :: digits => s ≤ 60 && digits ≠ [] && digits.all Char.isDigit
    | _, _ => false
  | _ => false

/-- A time such as `07:32` or `07:32:00.5`. -/
def isTime (cs : List Char) : Bool :=
  match fixedDigits? 2 (cs.take 2), cs.drop 2, fixedDigits? 2 ((cs.drop 3).take 2) with
  | some h, ':' :: _, some m => h ≤ 23 && m ≤ 59 && isSeconds (cs.drop 5)
  | _, _, _ => false

/-- A distance to universal time such as `+01:00`. -/
def isOffset : List Char → Bool
  | ['Z'] | ['z'] => true
  | c :: cs =>
    (c == '+' || c == '-') &&
      match fixedDigits? 2 (cs.take 2), cs.drop 2, fixedDigits? 2 (cs.drop 3) with
      | some h, ':' :: _, some m => h ≤ 23 && m ≤ 59
      | _, _, _ => false
  | [] => false

/-- A time with or without a distance to universal time. -/
def isZonedTime (cs : List Char) : Bool :=
  let (time, zone) := cut (fun c => c == 'Z' || c == 'z' || c == '+' || c == '-') cs
  isTime time && (zone.isEmpty || isOffset zone)

/-- A date, a time, or both. -/
def isDateTime (cs : List Char) : Bool :=
  isDate cs || isTime cs ||
    match cs.drop 10 with
    | c :: rest => isDate (cs.take 10) && (c == 'T' || c == 't' || c == ' ') && isZonedTime rest
    | [] => false

/-- The scalar that some characters stand for. -/
def ofChars? (cs : List Char) : Option Scalar :=
  if cs = "true".toList ∨ cs = "false".toList then some .other
  else
    match integer? cs with
    | some s => some s
    | none => if isFloat cs || isDateTime cs then some .other else none

end Scalar

end ScriptCore.Toml
