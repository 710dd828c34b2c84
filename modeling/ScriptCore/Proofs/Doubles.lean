import ScriptCore.Number.Double

/-!
# Integers as doubles

A word is its sign and its magnitude (`ext_parts`). A 64-bit integer other than 0 becomes the word
with its sign, the exponent of its leading bit, and its leading 53 bits (`ofInt_eq`). This word
stands for the integer rounded to 53 bits (`toInteger?_ofInt`).

So from `2 ^ 63 - 512` on, and nowhere else, an integer becomes a word that stands for no 64-bit
integer. This word is `2 ^ 63` (`toInt64?_ofInt_eq_none_iff`, `ofInt_eq_edge`).
-/

namespace ScriptCore

theorem twoPow_pos (k : Nat) : 0 < twoPow k := Nat.two_pow_pos k

theorem twoPow_add (j k : Nat) : twoPow (j + k) = twoPow j * twoPow k := Nat.pow_add 2 j k

theorem twoPow_le {j k : Nat} (h : j ≤ k) : twoPow j ≤ twoPow k :=
  Nat.pow_le_pow_right (by decide) h

theorem twoPow_52 : twoPow 52 = 4503599627370496 := rfl

theorem twoPow_53 : twoPow 53 = 9007199254740992 := rfl

theorem twoPow_63 : twoPow 63 = 9223372036854775808 := rfl

/-- The leading bit of a number. -/
theorem twoPow_log2_le {a : Nat} (ha : a ≠ 0) : twoPow a.log2 ≤ a := Nat.log2_self_le ha

theorem lt_twoPow_log2 (a : Nat) : a < twoPow (a.log2 + 1) := Nat.lt_log2_self

namespace Double

/-! ## The parts of a word -/

variable {negative : Bool} {magnitude : Nat}

theorem toNat_ofSigned (h : magnitude < twoPow 63) :
    (ofSigned negative magnitude).bits.toNat =
      if negative then twoPow 63 + magnitude else magnitude := by
  unfold ofSigned
  rw [UInt64.toNat_ofNat']
  rw [twoPow_63] at *
  exact Nat.mod_eq_of_lt (by split <;> omega)

theorem isNegative_ofSigned (h : magnitude < twoPow 63) :
    (ofSigned negative magnitude).isNegative = negative := by
  unfold isNegative
  rw [toNat_ofSigned h]
  cases negative with
  | true => simp
  | false => simpa using h

theorem magnitude_ofSigned (negative : Bool) {magnitude : Nat} (h : magnitude < twoPow 63) :
    (ofSigned negative magnitude).magnitude = magnitude := by
  unfold Double.magnitude
  rw [toNat_ofSigned h]
  cases negative with
  | true =>
    rw [if_pos rfl, Nat.add_mod_left]
    exact Nat.mod_eq_of_lt h
  | false => exact Nat.mod_eq_of_lt h

/-- A word is known by its sign and its magnitude. -/
theorem ext_parts {x y : Double} (hsign : x.isNegative = y.isNegative)
    (hmagnitude : x.magnitude = y.magnitude) : x = y := by
  have hx := x.bits.toNat_lt
  have hy := y.bits.toNat_lt
  have hbits : x.bits.toNat = y.bits.toNat := by
    simp only [isNegative, Double.magnitude, decide_eq_decide] at hsign hmagnitude
    rw [twoPow_63] at hsign hmagnitude
    omega
  exact congrArg Double.mk (UInt64.toNat_inj.1 hbits)

/-- A word with an exponent other than 0 has a leading bit beside its fraction. -/
theorem parts_of_magnitude {x : Double} {e q : Nat} (h : x.magnitude = e * twoPow 52 + q)
    (hlow : twoPow 52 ≤ q) (hhigh : q < twoPow 53) :
    x.significand = q ∧ x.scale = (e : Int) - 1074 := by
  rw [twoPow_52] at h hlow
  rw [twoPow_53] at hhigh
  have hexponent : x.exponent = e + 1 := by
    rw [exponent, twoPow_52]
    omega
  have hfraction : x.fraction = q - 4503599627370496 := by
    rw [fraction, twoPow_52]
    omega
  unfold significand scale
  rw [hexponent, hfraction, if_neg (Nat.succ_ne_zero e), if_neg (Nat.succ_ne_zero e),
    twoPow_52]
  omega

/-- The integer with the sign of a word. -/
def signed (x : Double) (n : Nat) : Int := if x.isNegative then -(n : Int) else n

theorem toInteger?_of_scale {x : Double} {k : Nat} (hfinite : x.isFinite) (hscale : x.scale = k) :
    x.toInteger? = some (x.signed (x.significand * twoPow k)) := by
  unfold toInteger?
  rw [hfinite, hscale]
  rfl

theorem toInteger?_of_unit {x : Double} {k n : Nat} (hfinite : x.isFinite)
    (hscale : x.scale = -((k : Nat) : Int)) (hx : x.significand = n * twoPow k) :
    x.toInteger? = some (x.signed n) := by
  obtain rfl | hk := Nat.eq_zero_or_pos k
  · rw [toInteger?_of_scale (k := 0) hfinite hscale, hx, show twoPow 0 = 1 from rfl, Nat.mul_one,
      Nat.mul_one]
  · unfold toInteger?
    dsimp only
    rw [hfinite, hscale, hx, if_neg (show ¬ (0 : Int) ≤ -((k : Nat) : Int) by omega),
      show (-(-((k : Nat) : Int))).toNat = k by omega, if_pos (Nat.mul_mod_left n _),
      Nat.mul_div_cancel n (twoPow_pos k)]
    rfl

/-! ## Rounding -/

/-- The leading 53 bits of a number, rounded. -/
def lead (a : Nat) : Nat :=
  if a.log2 ≤ 52 then a * twoPow (52 - a.log2) else halveEven a (a.log2 - 52)

/-- A number rounded to its leading 53 bits. -/
def rounded (a : Nat) : Nat :=
  if a.log2 ≤ 52 then a else halveEven a (a.log2 - 52) * twoPow (a.log2 - 52)

theorem halveEven_bounds (m k : Nat) :
    m / twoPow k ≤ halveEven m k ∧ halveEven m k ≤ m / twoPow k + 1 := by
  unfold halveEven
  dsimp only
  split <;> omega

/-- The leading bits of a number that has no others. -/
theorem lead_short {a : Nat} (ha : a ≠ 0) (hlog : a.log2 ≤ 52) :
    twoPow 52 ≤ a * twoPow (52 - a.log2) ∧ a * twoPow (52 - a.log2) < twoPow 53 := by
  obtain ⟨d, hd⟩ := Nat.exists_eq_add_of_le hlog
  rw [show 52 - a.log2 = d by omega, show twoPow 53 = twoPow (a.log2 + 1 + d) by congr 1; omega, hd,
    twoPow_add, twoPow_add]
  exact ⟨Nat.mul_le_mul_right _ (twoPow_log2_le ha),
    Nat.mul_lt_mul_of_pos_right (lt_twoPow_log2 a) (twoPow_pos d)⟩

/-- The leading bits of a number that has others are rounded, possibly to one bit more. -/
theorem lead_long {a : Nat} (hlog : 52 < a.log2) :
    twoPow 52 ≤ halveEven a (a.log2 - 52) ∧ halveEven a (a.log2 - 52) ≤ twoPow 53 := by
  have ha : a ≠ 0 := by
    rintro rfl
    simp at hlog
  have hlow := twoPow_log2_le ha
  have hhigh := lt_twoPow_log2 a
  obtain ⟨d, hd⟩ := Nat.exists_eq_add_of_le (Nat.le_of_lt hlog)
  rw [hd, twoPow_add] at hlow
  rw [hd, show 52 + d + 1 = 53 + d by omega, twoPow_add] at hhigh
  rw [show a.log2 - 52 = d by omega]
  have hdiv : twoPow 52 ≤ a / twoPow d := (Nat.le_div_iff_mul_le (twoPow_pos d)).2 hlow
  have hdiv' : a / twoPow d < twoPow 53 := (Nat.div_lt_iff_lt_mul (twoPow_pos d)).2 hhigh
  have hbounds := halveEven_bounds a d
  exact ⟨Nat.le_trans hdiv hbounds.1, Nat.le_trans hbounds.2 hdiv'⟩

theorem lead_bounds {a : Nat} (ha : a ≠ 0) : twoPow 52 ≤ lead a ∧ lead a ≤ twoPow 53 := by
  unfold lead
  split
  · exact (lead_short ha ‹_›).imp_right Nat.le_of_lt
  · exact lead_long (Nat.lt_of_not_le ‹_›)

/-! ## The word of an integer -/

variable {n : Int}

/-- An integer becomes the word of its leading bits. -/
theorem ofInt_eq (h : n ≠ 0) (hlog : n.natAbs.log2 ≤ 63) :
    ofInt n = ofSigned (n < 0) ((n.natAbs.log2 + 1022) * twoPow 52 + lead n.natAbs) := by
  have hbounds := lead_bounds (Int.natAbs_ne_zero.2 h)
  have htarget : max ((0 : Int) + (n.natAbs.log2 + 1 : Nat) - 53) (-1074) =
      (n.natAbs.log2 : Int) - 52 := by omega
  unfold ofInt ofScaled
  rw [if_neg (Int.natAbs_ne_zero.2 h)]
  dsimp only
  rw [htarget, show ((n.natAbs.log2 : Int) - 52 + 1074).toNat = n.natAbs.log2 + 1022 by omega,
    show ((0 : Int) - ((n.natAbs.log2 : Int) - 52)).toNat = 52 - n.natAbs.log2 by omega,
    show ((n.natAbs.log2 : Int) - 52 - 0).toNat = n.natAbs.log2 - 52 by omega,
    show (if (n.natAbs.log2 : Int) - 52 ≤ 0 then n.natAbs * twoPow (52 - n.natAbs.log2)
      else halveEven n.natAbs (n.natAbs.log2 - 52)) = lead n.natAbs from
        ite_congr (propext (by omega)) (fun _ => rfl) fun _ => rfl,
    Nat.min_eq_left]
  unfold infiniteMagnitude
  rw [twoPow_52, twoPow_53] at *
  omega

/-- **Rounding.** The word of an integer stands for the integer rounded to 53 bits. -/
theorem toInteger?_ofInt (h : n ≠ 0) (hlog : n.natAbs.log2 ≤ 63) :
    (ofInt n).toInteger? = some (if n < 0 then -(rounded n.natAbs : Int) else rounded n.natAbs) := by
  have ha := Int.natAbs_ne_zero.2 h
  have hbounds := lead_bounds ha
  have hsmall : (n.natAbs.log2 + 1022) * twoPow 52 + lead n.natAbs < infiniteMagnitude := by
    unfold infiniteMagnitude
    rw [twoPow_52, twoPow_53] at *
    omega
  have hword : infiniteMagnitude < twoPow 63 := by decide
  have hmagnitude := magnitude_ofSigned (n < 0) (Nat.lt_trans hsmall hword)
  have hsigned (k : Nat) : (ofInt n).signed k = if n < 0 then -(k : Int) else k := by
    unfold signed
    rw [ofInt_eq h hlog, isNegative_ofSigned (Nat.lt_trans hsmall hword)]
    simp
  rw [← ofInt_eq h hlog] at hmagnitude
  have hfinite : (ofInt n).isFinite := by
    unfold isFinite
    rw [hmagnitude]
    exact decide_eq_true hsmall
  rw [← hsigned]
  unfold rounded
  by_cases hshort : n.natAbs.log2 ≤ 52
  · have hlead : lead n.natAbs = n.natAbs * twoPow (52 - n.natAbs.log2) := if_pos hshort
    obtain ⟨hsignificand, hscale⟩ :=
      parts_of_magnitude hmagnitude hbounds.1 (hlead ▸ (lead_short ha hshort).2)
    rw [if_pos hshort]
    exact toInteger?_of_unit hfinite (by omega) (hsignificand.trans hlead)
  · have hlead : lead n.natAbs = halveEven n.natAbs (n.natAbs.log2 - 52) := if_neg hshort
    rw [if_neg hshort, ← hlead]
    obtain hlt | heq := Nat.lt_or_eq_of_le hbounds.2
    · obtain ⟨hsignificand, hscale⟩ := parts_of_magnitude hmagnitude hbounds.1 hlt
      rw [toInteger?_of_scale (k := n.natAbs.log2 - 52) hfinite (by omega), hsignificand]
    · -- one bit more: the leading bits are a power of two with a larger exponent
      obtain ⟨k, hk⟩ := Nat.exists_eq_add_of_lt (Nat.lt_of_not_le hshort)
      have hcarried : (ofInt n).magnitude = (n.natAbs.log2 + 1023) * twoPow 52 + twoPow 52 := by
        rw [hmagnitude, heq, show twoPow 53 = 2 * twoPow 52 from rfl, ← Nat.add_mul,
          ← Nat.succ_mul]
      obtain ⟨hsignificand, hscale⟩ := parts_of_magnitude hcarried (Nat.le_refl _) (by decide)
      rw [toInteger?_of_scale (k := k + 2) hfinite (by omega), hsignificand, heq,
        show n.natAbs.log2 - 52 = k + 1 by omega]
      rw [← twoPow_add, ← twoPow_add, show 52 + (k + 2) = 53 + (k + 1) by omega]

/-! ## Where 64-bit integers end -/

/-- The word of `2 ^ 63`. -/
def edge : Double := ⟨0x43e0000000000000⟩

theorem log2_le {a : Nat} (ha : a ≤ twoPow 63) : a.log2 ≤ 63 := by
  obtain rfl | hpos := Nat.eq_zero_or_pos a
  · decide
  · refine Nat.le_of_lt_succ ((Nat.log2_lt (Nat.ne_of_gt hpos)).2 ?_)
    exact Nat.lt_of_le_of_lt ha (by decide : twoPow 63 < twoPow 64)

/-- A rounded number has one bit more at most. -/
theorem rounded_le (a : Nat) : rounded a ≤ twoPow (a.log2 + 1) := by
  unfold rounded
  split
  · exact Nat.le_of_lt Nat.lt_log2_self
  · rename_i hlog
    have hlong := (lead_long (Nat.lt_of_not_le hlog)).2
    calc halveEven a (a.log2 - 52) * twoPow (a.log2 - 52)
        ≤ twoPow 53 * twoPow (a.log2 - 52) := Nat.mul_le_mul_right _ hlong
      _ = twoPow (a.log2 + 1) := by
        rw [← twoPow_add, show 53 + (a.log2 - 52) = a.log2 + 1 by omega]

/-- Of the numbers up to `2 ^ 63`, the last ones are rounded to it, and the others stay below. -/
theorem rounded_edge {a : Nat} (ha : a ≤ twoPow 63) :
    (rounded a < twoPow 63 ∧ a < twoPow 63 - 512) ∨
      (rounded a = twoPow 63 ∧ twoPow 63 - 512 ≤ a) := by
  have hhigh := lt_twoPow_log2 a
  by_cases h61 : a.log2 ≤ 61
  · have h62 : twoPow (a.log2 + 1) ≤ twoPow 62 := twoPow_le (Nat.succ_le_succ h61)
    have hround := rounded_le a
    rw [show twoPow 62 = 4611686018427387904 from rfl] at h62
    rw [twoPow_63]
    omega
  · have ha0 : a ≠ 0 := by
      rintro rfl
      exact h61 (by decide)
    have hlow := twoPow_log2_le ha0
    obtain h62 | h63 : a.log2 = 62 ∨ a.log2 = 63 := by
      have := log2_le ha
      omega
    · have hround : rounded a = halveEven a 10 * 1024 := by
        unfold rounded
        rw [h62]
        rfl
      rw [hround]
      rw [h62] at hhigh hlow
      unfold halveEven
      rw [show twoPow 10 = 1024 from rfl, twoPow_63]
      rw [twoPow_63] at hhigh
      dsimp only
      split <;> omega
    · rw [h63] at hlow
      obtain rfl := Nat.le_antisymm ha hlow
      exact .inr (by decide)

theorem ofInt?_eq_none_iff {v : Int} :
    Integer.ofInt? v = none ↔ v < -(twoPow 63 : Int) ∨ (twoPow 63 : Int) ≤ v := by
  rw [twoPow_63]
  unfold Integer.ofInt?
  dsimp only
  constructor
  · intro hnone
    refine Decidable.byContradiction fun hin => ?_
    rw [if_pos (Int64.toInt_ofInt_of_le (by omega) (by omega))] at hnone
    cases hnone
  · intro hout
    refine if_neg fun hword => ?_
    have hlow := (Int64.ofInt v).le_toInt
    have hhigh := (Int64.ofInt v).toInt_lt
    omega

theorem natAbs_le (n : Int64) : n.toInt.natAbs ≤ twoPow 63 := by
  have hlow := n.le_toInt
  have hhigh := n.toInt_lt
  rw [twoPow_63]
  omega

/-- **The edge.** The integers whose word stands for no 64-bit integer are the last 512. -/
theorem toInt64?_ofInt_eq_none_iff (n : Int64) :
    (ofInt n.toInt).toInt64? = none ↔ (twoPow 63 : Int) - 512 ≤ n.toInt := by
  by_cases hzero : n.toInt = 0
  · rw [hzero]
    decide +kernel
  · have hedge := rounded_edge (natAbs_le n)
    rw [toInt64?, toInteger?_ofInt hzero (log2_le (natAbs_le n))]
    show Integer.ofInt? _ = none ↔ _
    rw [ofInt?_eq_none_iff]
    rw [twoPow_63] at *
    split <;> omega

/-- The word of the last 512 integers is `2 ^ 63`. -/
theorem ofInt_eq_edge {n : Int64} (h : (twoPow 63 : Int) - 512 ≤ n.toInt) :
    ofInt n.toInt = edge := by
  have hhigh := n.toInt_lt
  have hpow := twoPow_63
  have hlog : n.toInt.natAbs.log2 = 62 := (Nat.log2_eq_iff (by omega)).2 (by omega)
  have hround : rounded n.toInt.natAbs = lead n.toInt.natAbs * twoPow 10 := by
    unfold rounded lead
    rw [hlog]
    rfl
  obtain hbelow | ⟨hedge, -⟩ := rounded_edge (natAbs_le n)
  · omega
  have hlead : lead n.toInt.natAbs = twoPow 53 :=
    Nat.eq_of_mul_eq_mul_right (twoPow_pos 10) (hround.symm.trans hedge)
  rw [ofInt_eq (by omega) (by omega), hlog, hlead, decide_eq_false (by omega)]
  rfl

end Double

end ScriptCore
