import Mathlib.Data.Rat.Floor
import ScriptCore.Operator

/-!
# Division rounded down

Division of words truncates. Where the remainder is not zero and its sign is not that of the
divisor, the remainder is raised by the divisor and the quotient lowered by one. The signs are
compared by an exclusive or.

1. A remainder that is smaller than the divisor and has its sign belongs to the quotient rounded
   down (`floor_unique`). The truncated division has this remainder, or is `Astray` and has it after
   the correction.
2. The operators test for just that (`mod_test_iff`, `div_test_iff`), so they give the remainder and
   the quotient rounded down (`toInt_floorMod`, `floorDiv_eq`). The quotient of `-2 ^ 63` by `-1` is
   no word and wraps.
3. Neither correction leaves the range of words (`checkedFloorMod_eq`, `checkedFloorDiv_eq`).
-/

namespace ScriptCore

namespace Integer

/-! ## The division of integers -/

section Floor

variable {x y q r : Int}

/-- A quotient is rounded down if its remainder is smaller than the divisor and has its sign. -/
theorem floor_unique (hx : x = y * q + r) (hlt : r.natAbs < y.natAbs)
    (hsign : r = 0 ∨ (r < 0 ↔ y < 0)) : ⌊(x : ℚ) / y⌋ = q := by
  rw [Int.floor_eq_iff]
  rcases lt_or_gt_of_ne (show y ≠ 0 by omega) with hy | hy
  · have hy' : (y : ℚ) < 0 := Int.cast_lt_zero.2 hy
    rw [le_div_iff_of_neg hy', div_lt_iff_of_neg hy']
    norm_cast
    constructor <;> nlinarith [show r ≤ 0 by omega, show y < r by omega]
  · have hy' : (0 : ℚ) < y := Int.cast_pos.2 hy
    rw [le_div_iff₀ hy', div_lt_iff₀ hy']
    norm_cast
    constructor <;> nlinarith [show 0 ≤ r by omega, show r < y by omega]

/-- The truncated division leaves a remainder without the sign of the divisor. -/
def Astray (x y : Int) : Prop := x.tmod y ≠ 0 ∧ (x < 0 ↔ ¬ y < 0)

/-- A remainder that is not zero has the sign of the dividend. -/
theorem tmod_neg_iff (h : x.tmod y ≠ 0) : x.tmod y < 0 ↔ x < 0 := by
  constructor
  · intro hneg
    by_contra hx
    have := Int.tmod_nonneg y (a := x) (by omega)
    omega
  · intro hx
    have := Int.tmod_nonneg y (a := -x) (by omega)
    rw [Int.neg_tmod] at this
    omega

theorem natAbs_tmod_lt (x : Int) (hy : y ≠ 0) : (x.tmod y).natAbs < y.natAbs := by
  rw [Int.natAbs_tmod]
  exact Nat.mod_lt _ (Int.natAbs_pos.2 hy)

/-- The truncated quotient is rounded down, if the remainder is right. -/
theorem floor_of_not_astray (hy : y ≠ 0) (h : ¬ Astray x y) : ⌊(x : ℚ) / y⌋ = x.tdiv y := by
  refine floor_unique (Int.mul_tdiv_add_tmod x y).symm (natAbs_tmod_lt x hy) ?_
  by_cases hr : x.tmod y = 0
  · exact .inl hr
  · rw [tmod_neg_iff hr]
    exact .inr (by_contra fun hne => h ⟨hr, by omega⟩)

/-- Else it is one too high. -/
theorem floor_of_astray (hy : y ≠ 0) (h : Astray x y) : ⌊(x : ℚ) / y⌋ = x.tdiv y - 1 := by
  obtain ⟨hr, hsign⟩ := h
  have hlt := natAbs_tmod_lt x hy
  rw [← tmod_neg_iff hr] at hsign
  have hx := Int.mul_tdiv_add_tmod x y
  exact floor_unique (r := x.tmod y + y) (by linarith) (by omega) (.inr (by omega))

end Floor

/-! ## Words -/

section Words

variable {a b : Int64}

/-- An exclusive or is negative where the signs differ. -/
theorem xor_neg_iff (a b : Int64) : a ^^^ b < 0 ↔ (a.toInt < 0 ↔ ¬ b.toInt < 0) := by
  have hneg : ∀ c : Int64, c < 0 ↔ c.toBitVec.msb := fun c => by
    rw [Int64.lt_iff_toInt_lt, BitVec.msb_eq_toInt, decide_eq_true_iff]
    rfl
  rw [hneg, Int64.toBitVec_xor, BitVec.msb_xor, BitVec.msb_eq_toInt, BitVec.msb_eq_toInt]
  show (decide (a.toInt < 0) ^^ decide (b.toInt < 0)) = true ↔ _
  by_cases ha : a.toInt < 0 <;> by_cases hb : b.toInt < 0 <;> simp [ha, hb]

theorem toInt_eq_zero : a.toInt = 0 ↔ a = 0 := Int64.toInt_inj (y := 0)

theorem toInt_ne_zero : a.toInt ≠ 0 ↔ a ≠ 0 := not_congr toInt_eq_zero

/-- The sign test on the remainder. -/
theorem mod_test_iff (a b : Int64) :
    (a % b ≠ 0 ∧ (a % b) ^^^ b < 0) ↔ Astray a.toInt b.toInt := by
  rw [xor_neg_iff, ← toInt_ne_zero, Int64.toInt_mod]
  exact and_congr_right fun h => by rw [tmod_neg_iff h]

/-- The sign test on the operands. -/
theorem div_test_iff (a b : Int64) : (a % b ≠ 0 ∧ a ^^^ b < 0) ↔ Astray a.toInt b.toInt := by
  rw [xor_neg_iff, ← toInt_ne_zero, Int64.toInt_mod]
  rfl

/-! ## Ranges -/

theorem toInt_ofInt_of_range {n : Int} (hlow : -2 ^ 63 ≤ n) (hhigh : n < 2 ^ 63) :
    (Int64.ofInt n).toInt = n := by
  rw [Int64.toInt_ofInt, show Int64.size = 2 ^ 64 from rfl]
  exact Int.bmod_eq_of_le (by omega) (by omega)

theorem ofInt?_of_range {n : Int} (hlow : -2 ^ 63 ≤ n) (hhigh : n < 2 ^ 63) :
    ofInt? n = some (Int64.ofInt n) := if_pos (toInt_ofInt_of_range hlow hhigh)

/-- A sum in the range of words passes its check. -/
theorem checkedAdd_of_range (hlow : -2 ^ 63 ≤ a.toInt + b.toInt)
    (hhigh : a.toInt + b.toInt < 2 ^ 63) : checkedAdd a b = some (a + b) := by
  rw [checkedAdd, ofInt?_of_range hlow hhigh, Int64.ofInt_add, Int64.ofInt_toInt, Int64.ofInt_toInt]

theorem checkedSub_of_range (hlow : -2 ^ 63 ≤ a.toInt - b.toInt)
    (hhigh : a.toInt - b.toInt < 2 ^ 63) : checkedSub a b = some (a - b) := by
  rw [checkedSub, ofInt?_of_range hlow hhigh, Int64.ofInt_sub, Int64.ofInt_toInt, Int64.ofInt_toInt]

/-- The raised remainder is a word. -/
theorem Astray.mod_range (h : Astray a.toInt b.toInt) :
    -2 ^ 63 ≤ a.toInt.tmod b.toInt + b.toInt ∧ a.toInt.tmod b.toInt + b.toInt < 2 ^ 63 := by
  have hr := h.2
  rw [← tmod_neg_iff h.1, ← Int64.toInt_mod] at hr
  have hlow := (a % b).le_toInt
  have hhigh := (a % b).toInt_lt
  have := b.le_toInt
  have := b.toInt_lt
  rw [← Int64.toInt_mod]
  omega

/-- The lowered quotient is a word: the divisor is neither `1` nor `-1`. -/
theorem Astray.div_range (h : Astray a.toInt b.toInt) :
    -2 ^ 63 ≤ a.toInt.tdiv b.toInt - 1 ∧ a.toInt.tdiv b.toInt < 2 ^ 63 := by
  have hunit : b.toInt.natAbs ≠ 1 := fun hone => by
    have := natAbs_tmod_lt a.toInt (y := b.toInt) (by omega)
    exact h.1 (by omega)
  have hdiv : (a.toInt.tdiv b.toInt).natAbs ≤ a.toInt.natAbs / 2 := by
    rw [Int.natAbs_tdiv]
    by_cases hzero : b.toInt.natAbs = 0
    · rw [hzero]
      exact (Nat.div_zero _).trans_le (Nat.zero_le _)
    · exact Nat.div_le_div_left (by omega) (by omega)
  have := a.le_toInt
  have := a.toInt_lt
  omega

/-! ## The operators -/

/-- `floorMod` with the overflow of its sum checked. -/
def checkedFloorMod (a b : Int64) : Option Int64 :=
  let r := a % b
  if r ≠ 0 ∧ (r ^^^ b) < 0 then checkedAdd r b else some r

/-- `floorDiv` with the overflow of its difference checked. -/
def checkedFloorDiv (a b : Int64) : Option Int64 :=
  let q := a / b
  if a % b ≠ 0 ∧ (a ^^^ b) < 0 then checkedSub q 1 else some q

/-- The sum in the remainder never overflows. -/
theorem checkedFloorMod_eq (a b : Int64) : checkedFloorMod a b = some (floorMod a b) := by
  unfold checkedFloorMod floorMod
  dsimp only
  split
  · rename_i h
    obtain ⟨hlow, hhigh⟩ := ((mod_test_iff a b).1 h).mod_range
    exact checkedAdd_of_range (by rwa [Int64.toInt_mod]) (by rwa [Int64.toInt_mod])
  · rfl

theorem div_eq_ofInt (a b : Int64) : a / b = Int64.ofInt (a.toInt.tdiv b.toInt) := by
  rw [← Int64.toInt_inj, Int64.toInt_div]
  exact Int64.toInt_ofInt.symm

/-- The difference in the quotient never overflows. -/
theorem checkedFloorDiv_eq (a b : Int64) : checkedFloorDiv a b = some (floorDiv a b) := by
  unfold checkedFloorDiv floorDiv
  dsimp only
  split
  · rename_i h
    obtain ⟨hlow, hhigh⟩ := ((div_test_iff a b).1 h).div_range
    have hq : (a / b).toInt = a.toInt.tdiv b.toInt := by
      rw [Int64.toInt_div]
      exact Int.bmod_eq_of_le (by omega) (by omega)
    have hone : (1 : Int64).toInt = 1 := rfl
    exact checkedSub_of_range (by omega) (by omega)
  · rfl

/-- The quotient is rounded down, and wraps. -/
theorem floorDiv_eq (a : Int64) (hb : b ≠ 0) :
    floorDiv a b = Int64.ofInt ⌊(a.toInt : ℚ) / b.toInt⌋ := by
  have hy : b.toInt ≠ 0 := toInt_ne_zero.2 hb
  unfold floorDiv
  dsimp only
  split
  · rename_i h
    rw [floor_of_astray hy ((div_test_iff a b).1 h), Int64.ofInt_sub, div_eq_ofInt]
    rfl
  · rename_i h
    rw [floor_of_not_astray hy (mt (div_test_iff a b).2 h), div_eq_ofInt]

/-- The remainder is that of the quotient rounded down. -/
theorem toInt_floorMod (a : Int64) (hb : b ≠ 0) :
    (floorMod a b).toInt = a.toInt - b.toInt * ⌊(a.toInt : ℚ) / b.toInt⌋ := by
  have hy : b.toInt ≠ 0 := toInt_ne_zero.2 hb
  have hx := Int.mul_tdiv_add_tmod a.toInt b.toInt
  unfold floorMod
  dsimp only
  split
  · rename_i h
    have hastray := (mod_test_iff a b).1 h
    obtain ⟨hlow, hhigh⟩ := hastray.mod_range
    rw [floor_of_astray hy hastray, Int64.toInt_add, Int64.toInt_mod,
      Int.bmod_eq_of_le (by omega) (by omega)]
    linarith
  · rename_i h
    rw [floor_of_not_astray hy (mt (mod_test_iff a b).2 h), Int64.toInt_mod]
    linarith

/-- The remainder is smaller than the divisor, and has its sign. -/
theorem floorMod_bounds (a : Int64) (hb : b ≠ 0) :
    (floorMod a b).toInt.natAbs < b.toInt.natAbs ∧
      (floorMod a b = 0 ∨ (floorMod a b < 0 ↔ b < 0)) := by
  have hlt := natAbs_tmod_lt a.toInt (toInt_ne_zero.2 hb)
  have hneg : ∀ c : Int64, c < 0 ↔ c.toInt < 0 := fun c => Int64.lt_iff_toInt_lt
  rw [hneg, hneg]
  unfold floorMod
  dsimp only
  split
  · rename_i h
    have hastray := (mod_test_iff a b).1 h
    obtain ⟨hlow, hhigh⟩ := hastray.mod_range
    obtain ⟨hr, hsign⟩ := hastray
    rw [← tmod_neg_iff hr] at hsign
    rw [Int64.toInt_add, Int64.toInt_mod, Int.bmod_eq_of_le (by omega) (by omega)]
    exact ⟨by omega, .inr (by omega)⟩
  · rename_i h
    rw [← toInt_eq_zero, Int64.toInt_mod]
    refine ⟨hlt, or_iff_not_imp_left.2 fun hr => ?_⟩
    have hnot := mt (mod_test_iff a b).2 h
    rw [tmod_neg_iff hr]
    exact by_contra fun hne => hnot ⟨hr, by omega⟩

end Words

end Integer

open Integer

/-- An operator that refuses the integer zero as the divisor of an integer has no other fault. -/
theorem BinOp.refuses_zero {op : BinOp} {e : Fault} {onInts : Int64 → Int64 → Int64}
    {onFloats : Double → Double → Double}
    (hop : ∀ lhs rhs, op.apply lhs rhs = match lhs, rhs with
      | .int a, .int b => if b = 0 then .error e else .ok (some (.int (onInts a b)))
      | _, _ => .ok (floatArithmetic onFloats lhs rhs)) (lhs rhs : Val) (f : Fault) :
    op.apply lhs rhs = .error f ↔ (∃ n, lhs = .int n) ∧ rhs = .int 0 ∧ f = e := by
  rw [hop]
  split
  · rename_i a b
    by_cases hb : b = 0
    · subst hb
      rw [if_pos rfl]
      exact ⟨fun h => ⟨⟨a, rfl⟩, rfl, (Except.error.inj h).symm⟩, fun h => h.2.2 ▸ rfl⟩
    · rw [if_neg hb]
      exact ⟨nofun, fun h => absurd (Val.int.inj h.2.1) hb⟩
  · rename_i hints
    refine ⟨nofun, fun ⟨⟨n, hn⟩, hzero, _⟩ => ?_⟩
    exact (hints n 0 hn hzero).elim

/-- **Division rounded down.** The quotient of two integers is rounded down, and wraps where it is no
word; the remainder is exact: it is what that quotient leaves before it wraps, is zero or has the
sign of the divisor, and is smaller than it. No sum or difference on the way overflows. The only
fault of the two operators, whatever their operands, is the division of an integer by the integer
zero. -/
theorem division_rounds_down (a b : Int64) :
    (b ≠ 0 → ∃ q r : Int64,
      BinOp.idiv.apply (.int a) (.int b) = .ok (some (.int q)) ∧
      BinOp.mod.apply (.int a) (.int b) = .ok (some (.int r)) ∧
      q = Int64.ofInt ⌊(a.toInt : ℚ) / b.toInt⌋ ∧
      r.toInt = a.toInt - b.toInt * ⌊(a.toInt : ℚ) / b.toInt⌋ ∧
      (r = 0 ∨ (r < 0 ↔ b < 0)) ∧ r.toInt.natAbs < b.toInt.natAbs ∧ a = b * q + r) ∧
    checkedFloorDiv a b = some (floorDiv a b) ∧ checkedFloorMod a b = some (floorMod a b) ∧
    ∀ lhs rhs f,
      (BinOp.idiv.apply lhs rhs = .error f ↔
        (∃ n, lhs = .int n) ∧ rhs = .int 0 ∧ f = .arithmetic .divZero) ∧
      (BinOp.mod.apply lhs rhs = .error f ↔
        (∃ n, lhs = .int n) ∧ rhs = .int 0 ∧ f = .arithmetic .modZero) := by
  refine ⟨fun hb => ⟨floorDiv a b, floorMod a b, if_neg hb, if_neg hb, floorDiv_eq a hb,
    toInt_floorMod a hb, (floorMod_bounds a hb).2, (floorMod_bounds a hb).1, ?_⟩,
    checkedFloorDiv_eq a b, checkedFloorMod_eq a b, fun lhs rhs f =>
    ⟨BinOp.refuses_zero (fun _ _ => rfl) lhs rhs f, BinOp.refuses_zero (fun _ _ => rfl) lhs rhs f⟩⟩
  calc a = Int64.ofInt (b.toInt * ⌊(a.toInt : ℚ) / b.toInt⌋ + (floorMod a b).toInt) := by
        rw [toInt_floorMod a hb, add_sub_cancel, Int64.ofInt_toInt]
    _ = b * floorDiv a b + floorMod a b := by
        rw [Int64.ofInt_add, Int64.ofInt_mul, Int64.ofInt_toInt, Int64.ofInt_toInt,
          floorDiv_eq a hb]

example : BinOp.idiv.apply (.int Int64.minValue) (.int (-1)) = .ok (some (.int Int64.minValue)) ∧
    BinOp.mod.apply (.int Int64.minValue) (.int (-1)) = .ok (some (.int 0)) := by decide

end ScriptCore
