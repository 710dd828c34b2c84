import ScriptCore.Proofs.Division

/-!
# Shifts

A shift by an integer count `n` makes `u * 2 ^ n`, rounded down and cut to a word, of the unsigned
word `u` (`scaled`). A right shift is a left shift by the negation of its count, which wraps for the
count `-2 ^ 63`.

1. A count past the width leaves nothing of the product in a word: `scaled_past`, `scaled_out`.
2. Within the width the host shifts by the count itself, so left shifts are right at every count
   (`toNat_shiftLeft`), and right shifts too, as nothing is left by `-2 ^ 63` either way
   (`shiftRight_eq`).
3. The host is asked for no shift by 64 or more, and for no negation that overflows
   (`checkedShiftLeft_eq`).
-/

namespace ScriptCore

namespace Integer

/-- The unsigned word `u` times `2 ^ n`, rounded down. -/
def scaled (u : Nat) (n : Int) : Int := ⌊(u : ℚ) * 2 ^ n⌋

theorem scaled_up (u k : Nat) : scaled u k = u * 2 ^ k := by
  unfold scaled
  rw [zpow_natCast]
  exact_mod_cast Int.floor_natCast (R := ℚ) (u * 2 ^ k)

theorem scaled_down (u k : Nat) : scaled u (-k) = u / 2 ^ k := by
  unfold scaled
  rw [zpow_neg, zpow_natCast, ← div_eq_mul_inv]
  exact_mod_cast Rat.floor_natCast_div_natCast u (2 ^ k)

/-- A shift left past the width leaves no bit in a word. -/
theorem scaled_past (u : Nat) {n : Int} (h : 64 ≤ n) : scaled u n % 2 ^ 64 = 0 := by
  obtain ⟨k, rfl⟩ := Int.eq_ofNat_of_zero_le (show 0 ≤ n - 64 by omega) |>.imp fun k hk =>
    (show n = ((64 + k : Nat) : Int) by omega)
  rw [scaled_up, pow_add, ← mul_assoc, mul_right_comm]
  exact Int.mul_emod_left _ _

/-- A shift right past the width leaves no bit of a word. -/
theorem scaled_out {u : Nat} (hu : u < 2 ^ 64) {n : Int} (h : n ≤ -64) : scaled u n = 0 := by
  obtain ⟨k, rfl⟩ : ∃ k : Nat, n = -((64 + k : Nat) : Int) := ⟨(-64 - n).toNat, by omega⟩
  rw [scaled_down]
  norm_cast
  refine Nat.div_eq_of_lt (hu.trans_le ?_)
  exact Nat.pow_le_pow_right (by omega) (by omega)

/-! ## Words -/

section Words

variable {a n : Int64}

/-- A word is known by its unsigned reading. -/
theorem ofInt_toNat (a : Int64) : Int64.ofInt (a.toUInt64.toNat : Int) = a := by
  rw [← Int64.toBitVec_inj, Int64.toBitVec_ofInt, BitVec.ofInt_natCast]
  exact BitVec.ofNat_toNat .. |>.trans (BitVec.setWidth_eq _)

/-- The unsigned reading of a count. -/
theorem toNat_count (h : 0 ≤ n.toInt) : (n.toUInt64.toNat : Int) = n.toInt := by
  have hint : n.toInt = n.toBitVec.toInt := rfl
  have hnat : n.toUInt64.toNat = n.toBitVec.toNat := rfl
  have := n.toBitVec.isLt
  rw [BitVec.toInt_eq_toNat_cond] at hint
  split at hint <;> omega

theorem toInt_neg (h : n ≠ Int64.minValue) : (-n).toInt = -n.toInt := by
  have hmin : n.toInt ≠ -2 ^ 63 := fun he => h (Int64.toInt_inj.1 he)
  have := n.le_toInt
  have := n.toInt_lt
  rw [Int64.toInt_neg]
  exact Int.bmod_eq_of_le (by omega) (by omega)

/-- The test of the width. -/
theorem width_test_iff (n : Int64) : (n ≤ -64 ∨ 64 ≤ n) ↔ 64 ≤ n.toInt.natAbs := by
  rw [Int64.le_iff_toInt_le, Int64.le_iff_toInt_le, show (-64 : Int64).toInt = -64 from rfl,
    show (64 : Int64).toInt = 64 from rfl]
  omega

/-- **Left shifts.** -/
theorem toNat_shiftLeft (a n : Int64) :
    ((shiftLeft a n).toUInt64.toNat : Int) = scaled a.toUInt64.toNat n.toInt % 2 ^ 64 := by
  have hu := a.toUInt64.toNat_lt
  unfold shiftLeft
  split
  · rename_i h
    rw [width_test_iff] at h
    show (0 : Int) = _
    by_cases hn : 0 ≤ n.toInt
    · rw [scaled_past _ (by omega)]
    · rw [scaled_out hu (by omega)]
      rfl
  · rename_i h
    rw [width_test_iff] at h
    split
    · rename_i hn
      have hcount := toNat_count (n := n) (Int64.le_iff_toInt_le.1 hn)
      show ((a.toUInt64 <<< n.toUInt64).toNat : Int) = _
      rw [← hcount, scaled_up, UInt64.toNat_shiftLeft, Nat.mod_eq_of_lt (b := 64) (by omega),
        Nat.shiftLeft_eq]
      norm_cast
    · rename_i hn
      rw [Int64.le_iff_toInt_le, show (0 : Int64).toInt = 0 from rfl] at hn
      have hneg := toInt_neg (n := n) fun hmin => h (by rw [hmin]; decide)
      have hcount := toNat_count (n := -n) (by omega)
      show ((a.toUInt64 >>> (-n).toUInt64).toNat : Int) = _
      rw [show n.toInt = -((-n).toUInt64.toNat : Int) by omega, scaled_down, UInt64.toNat_shiftRight,
        Nat.mod_eq_of_lt (b := 64) (by omega), Nat.shiftRight_eq_div_pow]
      norm_cast
      exact (Nat.mod_eq_of_lt ((Nat.div_le_self _ _).trans_lt hu)).symm

/-- **Shifts by a count.** -/
theorem shiftLeft_eq (a n : Int64) :
    shiftLeft a n = Int64.ofInt (scaled a.toUInt64.toNat n.toInt % 2 ^ 64) := by
  rw [← toNat_shiftLeft, ofInt_toNat]

/-- A right shift is a left shift by the negation of the count, which may wrap: no bit is left
then either way. -/
theorem shiftRight_eq (a n : Int64) :
    shiftRight a n = Int64.ofInt (scaled a.toUInt64.toNat (-n.toInt) % 2 ^ 64) := by
  rw [shiftRight, shiftLeft_eq]
  by_cases h : n = Int64.minValue
  · subst h
    rw [show (-Int64.minValue).toInt = -2 ^ 63 from rfl, show (Int64.minValue).toInt = -2 ^ 63 from rfl,
      scaled_out a.toUInt64.toNat_lt (by norm_num), scaled_past _ (by norm_num)]
    rfl
  · rw [toInt_neg h]

/-- A shift by 64 or more leaves no bit. -/
theorem shiftLeft_wide (a : Int64) (h : 64 ≤ n.toInt.natAbs) : shiftLeft a n = 0 :=
  if_pos ((width_test_iff n).2 h)

theorem shiftRight_wide (a : Int64) (h : 64 ≤ n.toInt.natAbs) : shiftRight a n = 0 := by
  refine shiftLeft_wide a ?_
  by_cases hmin : n = Int64.minValue
  · subst hmin
    decide
  · rw [toInt_neg hmin, Int.natAbs_neg]
    exact h

/-- The count of a shift of the host, which is below the width. -/
def hostCount? (n : Int64) : Option UInt64 :=
  if 0 ≤ n ∧ n < 64 then some n.toUInt64 else none

/-- `shiftLeft` with the counts of its host shifts and the overflow of its negation checked. -/
def checkedShiftLeft (a n : Int64) : Option Int64 :=
  if n ≤ -64 ∨ 64 ≤ n then some 0
  else if 0 ≤ n then do return (a.toUInt64 <<< (← hostCount? n)).toInt64
  else do return (a.toUInt64 >>> (← hostCount? (← checkedSub 0 n))).toInt64

/-- No host shift goes past the width, and no negation of a count overflows. -/
theorem checkedShiftLeft_eq (a n : Int64) : checkedShiftLeft a n = some (shiftLeft a n) := by
  have hhost : ∀ k : Int64, 0 ≤ k.toInt → k.toInt < 64 → hostCount? k = some k.toUInt64 :=
    fun k hlow hhigh => if_pos ⟨Int64.le_iff_toInt_le.2 hlow, Int64.lt_iff_toInt_lt.2 hhigh⟩
  unfold checkedShiftLeft shiftLeft
  split
  · rfl
  · rename_i h
    rw [width_test_iff] at h
    split
    · rename_i hn
      have hlow : 0 ≤ n.toInt := Int64.le_iff_toInt_le.1 hn
      rw [hhost n hlow (by omega)]
      rfl
    · have hneg := toInt_neg (n := n) fun hmin => h (by rw [hmin]; decide)
      rename_i hn
      have hhigh : ¬ 0 ≤ n.toInt := fun hle => hn (Int64.le_iff_toInt_le.2 hle)
      have hzero : (0 : Int64).toInt = 0 := rfl
      rw [checkedSub_of_range (by omega) (by omega), Int64.zero_sub]
      show (do return (a.toUInt64 >>> (← hostCount? (-n))).toInt64) = _
      rw [hhost (-n) (by omega) (by omega)]
      rfl

end Words

end Integer

open Integer

/-- **Shifts.** For all integers `a` and `n`, with the unsigned word `u` of `a`, a left shift gives
`u * 2 ^ n` and a right shift `u * 2 ^ (-n)`, rounded down and cut to a word; a negative count
shifts the other way. The host is asked for shifts by 0 to 63 only, and the negation of a count
wraps in a right shift by `-2 ^ 63` only. So any other right shift is the left shift by the
opposite count, and nothing is left by a shift of 64 or more, either way. -/
theorem shifts_scale (a n : Int64) :
    BinOp.shl.apply (.int a) (.int n) =
      .ok (some (.int (Int64.ofInt (scaled a.toUInt64.toNat n.toInt % 2 ^ 64)))) ∧
    BinOp.shr.apply (.int a) (.int n) =
      .ok (some (.int (Int64.ofInt (scaled a.toUInt64.toNat (-n.toInt) % 2 ^ 64)))) ∧
    checkedShiftLeft a n = some (shiftLeft a n) ∧
    checkedShiftLeft a (-n) = some (shiftRight a n) ∧
    (n ≠ Int64.minValue → (-n).toInt = -n.toInt ∧
      BinOp.shr.apply (.int a) (.int n) = BinOp.shl.apply (.int a) (.int (-n))) ∧
    (64 ≤ n.toInt.natAbs → BinOp.shl.apply (.int a) (.int n) = .ok (some (.int 0)) ∧
      BinOp.shr.apply (.int a) (.int n) = .ok (some (.int 0))) := by
  have hshl : BinOp.shl.apply (.int a) (.int n) = .ok (some (.int (shiftLeft a n))) := rfl
  have hshr : BinOp.shr.apply (.int a) (.int n) = .ok (some (.int (shiftRight a n))) := rfl
  refine ⟨shiftLeft_eq a n ▸ hshl, shiftRight_eq a n ▸ hshr, checkedShiftLeft_eq a n,
    checkedShiftLeft_eq a (-n), fun h => ⟨toInt_neg h, rfl⟩, fun h => ?_⟩
  rw [hshl, hshr, shiftLeft_wide a h, shiftRight_wide a h]
  exact ⟨rfl, rfl⟩

end ScriptCore
