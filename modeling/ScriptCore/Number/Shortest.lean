import ScriptCore.Number.Power

/-!
# Shortest decimals

A finite binary64 number `m * 2 ^ q` is read back from every decimal inside its rounding
interval. `digits` gives the fewest digits of such a decimal, and of those the decimal nearest to
the number, an exact tie going to the even last digit.

1. `interval` holds the number and the ends of its interval over one denominator.
2. `decade` is the place of the leading digit.
3. `onGrid` tests the two neighbours of the number on the grid of a digit count.
4. `digits` takes the first count that has a hit; seventeen digits always have one.
-/

namespace ScriptCore.Shortest

/-- A number and the ends of its rounding interval, over one denominator. -/
structure Interval where
  low : Nat
  value : Nat
  high : Nat
  denominator : Nat
  /-- Whether the ends belong to the interval. -/
  closed : Bool

/-- The rounding interval of `m * 2 ^ q`. Below a power of two the spacing is half of that above
it, unless the exponent is already the least. -/
def interval (m : Nat) (q : Int) : Interval :=
  let below := if m = twoPow 52 ∧ -1074 < q then 1 else 2
  let factor := twoPow (q - 2).toNat
  { low := (4 * m - below) * factor
    value := 4 * m * factor
    high := (4 * m + 2) * factor
    denominator := twoPow (2 - q).toNat
    closed := m % 2 = 0 }

/-- Whether `c * 10 ^ e` lies in the interval. -/
def Interval.contains (i : Interval) (c : Nat) (e : Int) : Bool :=
  let x := c * tenPow e.toNat * i.denominator
  let s := tenPow (-e).toNat
  if i.closed then i.low * s ≤ x && x ≤ i.high * s else i.low * s < x && x < i.high * s

/-- Whether `10 ^ e` is at most the number. -/
def Interval.reaches (i : Interval) (e : Int) : Bool :=
  tenPow e.toNat * i.denominator ≤ i.value * tenPow (-e).toNat

/-- The largest `e` with `10 ^ e` at most the number, from a guess that is not too small. -/
def decade (i : Interval) : Nat → Int → Int
  | 0, e => e
  | n + 1, e => if i.reaches e then e else decade i n (e - 1)

/-- The neighbour of the number on the grid of step `10 ^ e` that reads back, the nearer of
two. -/
def onGrid (i : Interval) (e : Int) : Option Nat :=
  let n := i.value * tenPow (-e).toNat
  let d := tenPow e.toNat * i.denominator
  let c := n / d
  let r := n % d
  match i.contains c e, i.contains (c + 1) e with
  | true, false => some c
  | false, true => some (c + 1)
  | true, true => some (if 2 * r < d ∨ (2 * r = d ∧ c % 2 = 0) then c else c + 1)
  | false, false => none

/-- The first grid with a hit, from `count` digits on. -/
def search (i : Interval) (top : Int) : Nat → Nat → Nat × Int
  | 0, count => (0, top - count)
  | n + 1, count =>
    let e := top + 1 - (count : Int)
    match onGrid i e with
    | some c => (c, e)
    | none => search i top n (count + 1)

/-- Moves trailing zeros of the coefficient into the exponent. -/
def trimZeros : Nat → Nat → Int → Nat × Int
  | 0, c, e => (c, e)
  | n + 1, c, e => if c ≠ 0 ∧ c % 10 = 0 then trimZeros n (c / 10) (e + 1) else (c, e)

/-- The shortest decimal `c * 10 ^ e` that reads back as `m * 2 ^ q`, nearest to it, with no
trailing zero in `c`. -/
def digits (m : Nat) (q : Int) : Nat × Int :=
  let i := interval m q
  let top := decade i 700 (((m.log2 : Int) + q + 1) * 302 / 1000 + 2)
  let (c, e) := search i top 17 1
  trimZeros 20 c e

end ScriptCore.Shortest
