import Mathlib.Algebra.Order.Field.Power
import Mathlib.Algebra.Order.Field.Rat
import Mathlib.Order.WithBot
import ScriptCore.Proofs.Doubles

/-!
# The values of doubles

A word that is no not-a-number stands for a rational number or an infinity (`Double.value?`). The
place of a word on the line (`Double.order`) follows this value: all finite words stand for multiples
of `2 ^ -1074`, and the multiple grows with the magnitude (`units_strictMono`, `order_lt_iff`).

The word of an integer lies next to it: no word is between them (`order_le_ofInt`,
`ofInt_le_order`). So a word that lies below the integer is not above its word, and the other way
round; and a greater integer has no smaller word (`ofInt_mono`). Up to `2 ^ 53` an integer is the
value of its word (`rational_ofInt`).
-/

namespace ScriptCore

/-- The rational numbers and two infinities. -/
abbrev Extended := WithBot (WithTop ℚ)

theorem cast_twoPow (k : Nat) : ((twoPow k : Nat) : ℚ) = 2 ^ k := Nat.cast_pow 2 k

namespace Double

/-- The number that a finite word stands for. -/
def rational (x : Double) : ℚ :=
  (if x.isNegative then -1 else 1) * (x.significand * 2 ^ x.scale)

/-- What a word stands for, if it is no not-a-number. -/
def value? (x : Double) : Option Extended :=
  if x.isNaN then none
  else if x.isFinite then some ((x.rational : WithTop ℚ) : Extended)
  else some (if x.isNegative then ⊥ else ⊤)

/-! ## Magnitudes -/

/-- How many times `2 ^ -1074` a finite magnitude is. -/
def units (m : Nat) : Nat :=
  if m / twoPow 52 = 0 then m % twoPow 52
  else (twoPow 52 + m % twoPow 52) * twoPow (m / twoPow 52 - 1)

theorem units_small {m : Nat} (h : m ≤ twoPow 52) : units m = m := by
  unfold units
  obtain hlt | rfl := Nat.lt_or_eq_of_le h
  · rw [if_pos (Nat.div_eq_of_lt hlt), Nat.mod_eq_of_lt hlt]
  · rfl

/-- The leading bits of a magnitude, with one bit more at most. -/
theorem units_add {e f : Nat} (h : f ≤ twoPow 52) :
    units ((e + 1) * twoPow 52 + f) = (twoPow 52 + f) * twoPow e := by
  have hpos := twoPow_pos 52
  unfold units
  obtain hlt | rfl := Nat.lt_or_eq_of_le h
  · have hdiv : ((e + 1) * twoPow 52 + f) / twoPow 52 = e + 1 := by
      rw [Nat.mul_comm, Nat.mul_add_div hpos, Nat.div_eq_of_lt hlt, Nat.add_zero]
    rw [hdiv, if_neg (Nat.succ_ne_zero e), Nat.mul_add_mod', Nat.mod_eq_of_lt hlt,
      Nat.add_sub_cancel]
  · have hcarry : (e + 1) * twoPow 52 + twoPow 52 = (e + 2) * twoPow 52 := by
      rw [← Nat.succ_mul]
    rw [hcarry, Nat.mul_div_cancel _ hpos, if_neg (Nat.succ_ne_zero _), Nat.mul_mod_left,
      show e + 2 - 1 = 1 + e from by omega, twoPow_add, show twoPow 1 = 2 from rfl,
      Nat.add_zero, ← Nat.mul_assoc, Nat.mul_two]

/-- A magnitude from `2 ^ 52` on is an exponent and a fraction. -/
theorem magnitude_split {m : Nat} (h : twoPow 52 ≤ m) :
    ∃ e f, m = (e + 1) * twoPow 52 + f ∧ f < twoPow 52 := by
  have hpos := twoPow_pos 52
  obtain ⟨e, he⟩ := Nat.exists_eq_add_of_lt (Nat.div_pos h hpos)
  refine ⟨e, m % twoPow 52, ?_, Nat.mod_lt m hpos⟩
  have hdiv : m / twoPow 52 = e + 1 := by omega
  rw [← hdiv, Nat.mul_comm]
  exact (Nat.div_add_mod m _).symm

theorem units_strictMono : StrictMono units := by
  refine strictMono_nat_of_lt_succ fun m => ?_
  obtain hsmall | hlarge := Nat.lt_or_ge m (twoPow 52)
  · rw [units_small (Nat.le_of_lt hsmall), units_small hsmall]
    exact Nat.lt_succ_self m
  · obtain ⟨e, f, rfl, hf⟩ := magnitude_split hlarge
    rw [Nat.add_assoc, units_add (Nat.le_of_lt hf), units_add hf]
    exact Nat.mul_lt_mul_of_pos_right (Nat.lt_succ_self _) (twoPow_pos e)

theorem units_zero : units 0 = 0 := units_small (Nat.zero_le _)

/-! ## Values and places -/

variable {x y : Double} {a b : Extended}

theorem units_magnitude (x : Double) : units x.magnitude =
    if x.exponent = 0 then x.fraction else (twoPow 52 + x.fraction) * twoPow (x.exponent - 1) := rfl

/-- A finite word stands for a multiple of `2 ^ -1074`. -/
theorem rational_eq (x : Double) :
    x.rational = (x.signed (units x.magnitude) : ℚ) / 2 ^ 1074 := by
  have hsize : (x.significand : ℚ) * 2 ^ x.scale = (units x.magnitude : ℚ) / 2 ^ 1074 := by
    rw [units_magnitude]
    unfold significand scale
    by_cases h : x.exponent = 0
    · rw [if_pos h, if_pos h, if_pos h, zpow_neg, ← div_eq_mul_inv]
      rfl
    · obtain ⟨e, he⟩ := Nat.exists_eq_succ_of_ne_zero h
      have hscale : ((e.succ : Nat) : Int) - 1075 = (e : Int) - (1074 : Nat) := by omega
      rw [if_neg h, if_neg h, if_neg h, he, hscale, zpow_sub₀ two_ne_zero, zpow_natCast,
        zpow_natCast, Nat.cast_mul, cast_twoPow, ← mul_div_assoc, Nat.succ_sub_one]
  unfold rational signed
  rw [hsize]
  split
  · rw [Int.cast_neg, Int.cast_natCast, neg_one_mul, neg_div]
  · rw [Int.cast_natCast, one_mul]

/-- Signed magnitudes are ordered as the places of their words. -/
theorem signed_units_lt_iff :
    x.signed (units x.magnitude) < y.signed (units y.magnitude) ↔ x.order < y.order := by
  have hxy := units_strictMono.lt_iff_lt (a := x.magnitude) (b := y.magnitude)
  have hyx := units_strictMono.lt_iff_lt (a := y.magnitude) (b := x.magnitude)
  have hx := units_strictMono.lt_iff_lt (a := 0) (b := x.magnitude)
  have hy := units_strictMono.lt_iff_lt (a := 0) (b := y.magnitude)
  rw [units_zero] at hx hy
  unfold signed order
  split <;> split <;> omega

theorem rational_lt_iff : x.rational < y.rational ↔ x.order < y.order := by
  rw [rational_eq, rational_eq, div_lt_div_iff_of_pos_right (pow_pos two_pos 1074), Int.cast_lt,
    signed_units_lt_iff]

/-- The finite words lie between the infinities. -/
theorem order_bounds (h : x.isFinite) :
    -(infiniteMagnitude : Int) < x.order ∧ x.order < infiniteMagnitude := by
  have hlt : x.magnitude < infiniteMagnitude := of_decide_eq_true h
  unfold order
  split <;> omega

/-- A value is that of a finite word, or of an infinite word at an end of the line. -/
theorem value?_cases (h : x.value? = some a) : ¬ x.isNaN ∧
    (x.isFinite ∧ a = ((x.rational : WithTop ℚ) : Extended) ∨
      x.order = infiniteMagnitude ∧ a = ⊤ ∨ x.order = -(infiniteMagnitude : Int) ∧ a = ⊥) := by
  unfold value? at h
  by_cases hnan : x.isNaN
  · rw [if_pos hnan] at h
    cases h
  · rw [if_neg hnan] at h
    refine ⟨hnan, ?_⟩
    by_cases hfinite : x.isFinite
    · rw [if_pos hfinite] at h
      exact .inl ⟨hfinite, (Option.some.inj h).symm⟩
    · rw [if_neg hfinite] at h
      have hmagnitude : x.magnitude = infiniteMagnitude := by
        simp only [isNaN, isFinite, decide_eq_true_eq] at hnan hfinite
        omega
      unfold order
      rw [hmagnitude]
      by_cases hneg : x.isNegative
      · rw [if_pos hneg] at h
        exact .inr (.inr ⟨if_pos hneg, (Option.some.inj h).symm⟩)
      · rw [if_neg hneg] at h
        exact .inr (.inl ⟨if_neg hneg, (Option.some.inj h).symm⟩)

/-- **Places follow values.** -/
theorem order_lt_iff (hx : x.value? = some a) (hy : y.value? = some b) :
    x.order < y.order ↔ a < b := by
  have hinfinite : 0 < infiniteMagnitude := by decide
  have hbot (q : ℚ) : (⊥ : Extended) < (q : WithTop ℚ) := WithBot.bot_lt_coe _
  have htop (q : ℚ) : ((q : WithTop ℚ) : Extended) < ⊤ := WithBot.coe_lt_coe.2 (WithTop.coe_lt_top q)
  obtain ⟨-, hx⟩ := value?_cases hx
  obtain ⟨-, hy⟩ := value?_cases hy
  rcases hx with ⟨hfx, rfl⟩ | ⟨hox, rfl⟩ | ⟨hox, rfl⟩ <;>
    rcases hy with ⟨hfy, rfl⟩ | ⟨hoy, rfl⟩ | ⟨hoy, rfl⟩
  · rw [WithBot.coe_lt_coe, WithTop.coe_lt_coe, rational_lt_iff]
  · exact iff_of_true (hoy ▸ (order_bounds hfx).2) (htop _)
  · exact iff_of_false (hoy ▸ (order_bounds hfx).1.not_gt) (hbot _).not_gt
  · exact iff_of_false (hox ▸ (order_bounds hfy).2.not_gt) (htop _).not_gt
  · exact iff_of_false (by omega) (lt_irrefl _)
  · exact iff_of_false (by omega) not_lt_bot
  · exact iff_of_true (hox ▸ (order_bounds hfy).1) (hbot _)
  · exact iff_of_true (by omega) bot_lt_top
  · exact iff_of_false (by omega) (lt_irrefl _)

theorem order_le_iff (hx : x.value? = some a) (hy : y.value? = some b) :
    x.order ≤ y.order ↔ a ≤ b := by
  rw [← Int.not_lt, order_lt_iff hy hx, not_lt]

/-! ## The word of an integer -/

/-- The magnitude of the word of an integer. -/
def magnitudeOf (a : Nat) : Nat := if a = 0 then 0 else (a.log2 + 1022) * twoPow 52 + lead a

theorem magnitudeOf_lt {a : Nat} (ha : a ≤ twoPow 63) : magnitudeOf a < infiniteMagnitude := by
  unfold magnitudeOf infiniteMagnitude
  split
  · decide
  · have hlead := (lead_bounds ‹_›).2
    have hlog := log2_le ha
    rw [twoPow_53] at hlead
    rw [twoPow_52]
    omega

/-- The word of an integer has its sign. -/
theorem parts_ofInt {n : Int} (h : n.natAbs ≤ twoPow 63) :
    (ofInt n).isNegative = decide (n < 0) ∧ (ofInt n).magnitude = magnitudeOf n.natAbs := by
  have hword : magnitudeOf n.natAbs < twoPow 63 := Nat.lt_trans (magnitudeOf_lt h) (by decide)
  by_cases hn : n = 0
  · rw [hn]
    decide +kernel
  · have hparts : ofInt n = ofSigned (n < 0) (magnitudeOf n.natAbs) := by
      rw [ofInt_eq hn (log2_le h), magnitudeOf, if_neg (Int.natAbs_ne_zero.2 hn)]
    rw [hparts]
    exact ⟨isNegative_ofSigned hword, magnitude_ofSigned _ hword⟩

/-- The integer with the sign of an integer's word. -/
theorem signed_ofInt {n : Int} (h : n.natAbs ≤ twoPow 63) (k : Nat) :
    (ofInt n).signed k = if n < 0 then -(k : Int) else k := by
  rw [signed, (parts_ofInt h).1]
  simp only [decide_eq_true_eq]

/-- The place of the word of an integer. -/
theorem order_ofInt {n : Int} (h : n.natAbs ≤ twoPow 63) : (ofInt n).order =
    if n < 0 then -(magnitudeOf n.natAbs : Int) else magnitudeOf n.natAbs := by
  rw [← signed_ofInt h, ← (parts_ofInt h).2]
  rfl

/-- The word of an integer is finite. -/
theorem isFinite_ofInt {n : Int} (h : n.natAbs ≤ twoPow 63) : (ofInt n).isFinite := by
  rw [isFinite, (parts_ofInt h).2]
  exact decide_eq_true (magnitudeOf_lt h)

theorem not_isNaN_of_isFinite (h : x.isFinite) : ¬ x.isNaN := by
  simp only [isNaN, isFinite, decide_eq_true_eq] at h ⊢
  exact Nat.not_lt.2 (Nat.le_of_lt h)

theorem value?_of_isFinite (h : x.isFinite) :
    x.value? = some ((x.rational : WithTop ℚ) : Extended) := by
  rw [value?, if_neg (not_isNaN_of_isFinite h), if_pos h]

/-- Leading bits and an exponent, with one bit more at most. -/
theorem units_lead {l q : Nat} (hlow : twoPow 52 ≤ q) (hhigh : q ≤ twoPow 53) :
    units ((l + 1022) * twoPow 52 + q) = q * twoPow (l + 1022) := by
  obtain ⟨f, rfl⟩ := Nat.exists_eq_add_of_le hlow
  rw [← Nat.add_assoc, ← Nat.succ_mul, units_add (Nat.le_of_add_le_add_left (a := twoPow 52) hhigh)]

/-- The word of a number of at most 53 bits stands for it. -/
theorem units_short {a : Nat} (ha : a ≠ 0) (hlog : a.log2 ≤ 52) :
    units (magnitudeOf a) = a * twoPow 1074 := by
  obtain ⟨hlow, hhigh⟩ := lead_bounds ha
  rw [magnitudeOf, if_neg ha, units_lead hlow hhigh, lead, if_pos hlog, Nat.mul_assoc, ← twoPow_add,
    show 52 - a.log2 + (a.log2 + 1022) = 1074 by omega]

theorem halveEven_cases (m k : Nat) : halveEven m k = m / twoPow k ∨
    halveEven m k = m / twoPow k + 1 ∧ 0 < m % twoPow k := by
  have hpos := twoPow_pos k
  unfold halveEven
  dsimp only
  split
  · exact .inr ⟨rfl, by omega⟩
  · exact .inl rfl

/-- The word of a number with more bits is one of the two neighbours that the number lies between,
and the lower one if the number is that. -/
theorem units_long {a : Nat} (hlog : 52 < a.log2) : ∃ m, units m ≤ a * twoPow 1074 ∧
    a * twoPow 1074 < units (m + 1) ∧
    (magnitudeOf a = m ∨ magnitudeOf a = m + 1 ∧ units m < a * twoPow 1074) := by
  have ha : a ≠ 0 := by
    rintro rfl
    simp at hlog
  obtain ⟨d, hd⟩ := Nat.exists_eq_add_of_le (Nat.le_of_lt hlog)
  have hpos := twoPow_pos d
  have hlow : twoPow 52 ≤ a / twoPow d := by
    rw [Nat.le_div_iff_mul_le hpos, ← twoPow_add, ← hd]
    exact twoPow_log2_le ha
  have hhigh : a / twoPow d < twoPow 53 := by
    rw [Nat.div_lt_iff_lt_mul hpos, ← twoPow_add, show 53 + d = a.log2 + 1 by omega]
    exact lt_twoPow_log2 a
  have hscale (q : Nat) : q * twoPow (a.log2 + 1022) = q * twoPow d * twoPow 1074 := by
    rw [Nat.mul_assoc, ← twoPow_add, show a.log2 + 1022 = d + 1074 by omega]
  have hdiv := Nat.div_add_mod a (twoPow d)
  rw [Nat.mul_comm] at hdiv
  have hmod := Nat.mod_lt a hpos
  have hword : magnitudeOf a = (a.log2 + 1022) * twoPow 52 + halveEven a d := by
    rw [magnitudeOf, if_neg ha, lead, if_neg (Nat.not_le.2 hlog), show a.log2 - 52 = d by omega]
  -- the lower neighbour has the leading bits, cut off
  refine ⟨(a.log2 + 1022) * twoPow 52 + a / twoPow d, ?_, ?_, ?_⟩
  · rw [units_lead hlow (Nat.le_of_lt hhigh), hscale]
    exact Nat.mul_le_mul_right _ (Nat.div_mul_le_self a _)
  · rw [Nat.add_assoc, units_lead (Nat.le_succ_of_le hlow) hhigh, hscale]
    refine Nat.mul_lt_mul_of_pos_right ?_ (twoPow_pos _)
    rw [Nat.succ_mul]
    omega
  · rw [units_lead hlow (Nat.le_of_lt hhigh), hscale, hword]
    obtain heq | ⟨heq, hrest⟩ := halveEven_cases a d
    · exact .inl (by rw [heq])
    · refine .inr ⟨by rw [heq, Nat.add_assoc], Nat.mul_lt_mul_of_pos_right ?_ (twoPow_pos _)⟩
      omega

/-- No word is between a number and its word. -/
theorem magnitudeOf_next {a : Nat} (m : Nat) :
    (units m ≤ a * twoPow 1074 → m ≤ magnitudeOf a) ∧
      (a * twoPow 1074 ≤ units m → magnitudeOf a ≤ m) := by
  obtain rfl | ha := Nat.eq_zero_or_pos a
  · rw [Nat.zero_mul, ← units_zero, units_strictMono.le_iff_le, units_strictMono.le_iff_le]
    exact ⟨id, id⟩
  obtain hshort | hlong := Nat.lt_or_ge 52 a.log2 |>.symm
  · rw [← units_short (Nat.ne_of_gt ha) hshort, units_strictMono.le_iff_le,
      units_strictMono.le_iff_le]
    exact ⟨id, id⟩
  · obtain ⟨k, hle, hlt, hword⟩ := units_long hlong
    constructor
    · intro hm
      have hk : m < k + 1 := units_strictMono.lt_iff_lt.1 (Nat.lt_of_le_of_lt hm hlt)
      omega
    · intro hm
      obtain heq | ⟨heq, hcut⟩ := hword
      · exact heq ▸ units_strictMono.le_iff_le.1 (Nat.le_trans hle hm)
      · exact heq ▸ units_strictMono.lt_iff_lt.1 (Nat.lt_of_lt_of_le hcut hm)

/-- The comparison of a finite word with an integer, in multiples of `2 ^ -1074`. -/
theorem rational_le_iff (n : Int) :
    x.rational ≤ n ↔ x.signed (units x.magnitude) ≤ n * (twoPow 1074 : Int) := by
  rw [rational_eq, div_le_iff₀ (pow_pos two_pos 1074), ← cast_twoPow]
  exact_mod_cast Iff.rfl

theorem le_rational_iff (n : Int) :
    (n : ℚ) ≤ x.rational ↔ n * (twoPow 1074 : Int) ≤ x.signed (units x.magnitude) := by
  rw [rational_eq, le_div_iff₀ (pow_pos two_pos 1074), ← cast_twoPow]
  exact_mod_cast Iff.rfl

theorem mul_units (n : Int) : n * (twoPow 1074 : Int) =
    if n < 0 then -((n.natAbs * twoPow 1074 : Nat) : Int) else (n.natAbs * twoPow 1074 : Nat) := by
  rw [Int.natCast_mul, Int.natCast_natAbs]
  split
  · rw [abs_of_neg ‹_›, Int.neg_mul, Int.neg_neg]
  · rw [abs_of_nonneg (Int.not_lt.1 ‹_›)]

/-- **Rounding to a neighbour.** A word below an integer is not above the integer's word, and a word
above the integer is not below it. -/
theorem ofInt_next {n : Int} (h : n.natAbs ≤ twoPow 63) :
    (x.rational ≤ n → x.order ≤ (ofInt n).order) ∧
      ((n : ℚ) ≤ x.rational → (ofInt n).order ≤ x.order) := by
  obtain ⟨hbelow, habove⟩ := magnitudeOf_next (a := n.natAbs) x.magnitude
  have hpos : n < 0 → 0 < n.natAbs * twoPow 1074 := fun hn =>
    Nat.mul_pos (by omega) (twoPow_pos 1074)
  have hzero := units_strictMono.lt_iff_lt (a := 0) (b := x.magnitude)
  rw [units_zero] at hzero
  rw [rational_le_iff, le_rational_iff, order_ofInt h, mul_units]
  unfold signed order
  constructor <;> intro hx <;> split at hx <;> split at hx <;> split <;> omega

/-! ## Integers among each other -/

theorem halveEven_mono {m n : Nat} (k : Nat) (h : m ≤ n) : halveEven m k ≤ halveEven n k := by
  have hdiv := Nat.div_le_div_right (c := twoPow k) h
  have hm := Nat.div_add_mod m (twoPow k)
  have hn := Nat.div_add_mod n (twoPow k)
  obtain hlt | heq := Nat.lt_or_eq_of_le hdiv
  · exact Nat.le_trans (halveEven_bounds m k).2 (Nat.le_trans hlt (halveEven_bounds n k).1)
  · have hmod : m % twoPow k ≤ n % twoPow k := by
      rw [heq] at hm
      omega
    unfold halveEven
    dsimp only
    rw [heq]
    split <;> split <;> omega

/-- A greater number has no smaller word. -/
theorem magnitudeOf_mono {a b : Nat} (h : a ≤ b) : magnitudeOf a ≤ magnitudeOf b := by
  unfold magnitudeOf
  by_cases ha : a = 0
  · rw [if_pos ha]
    exact Nat.zero_le _
  have hb : b ≠ 0 := by omega
  have hlog : a.log2 ≤ b.log2 := (Nat.le_log2 hb).2 (Nat.le_trans (Nat.log2_self_le ha) h)
  rw [if_neg ha, if_neg hb]
  obtain hlt | heq := Nat.lt_or_eq_of_le hlog
  · have hhigh := (lead_bounds ha).2
    have hlow := (lead_bounds hb).1
    rw [twoPow_52, twoPow_53] at *
    omega
  · rw [heq]
    refine Nat.add_le_add_left ?_ _
    unfold lead
    rw [heq]
    split
    · exact Nat.mul_le_mul_right _ h
    · exact halveEven_mono _ h

theorem ofInt_mono {m n : Int} (hm : m.natAbs ≤ twoPow 63) (hn : n.natAbs ≤ twoPow 63)
    (h : m ≤ n) : (ofInt m).order ≤ (ofInt n).order := by
  have hup := magnitudeOf_mono (a := m.natAbs) (b := n.natAbs)
  have hdown := magnitudeOf_mono (a := n.natAbs) (b := m.natAbs)
  rw [order_ofInt hm, order_ofInt hn]
  split <;> split <;> omega

/-- **Exact integers.** Up to `2 ^ 53` an integer is the value of its word. -/
theorem value?_ofInt {n : Int} (h : n.natAbs ≤ twoPow 53) :
    (ofInt n).value? = some (((n : ℚ) : WithTop ℚ) : Extended) := by
  have hword : n.natAbs ≤ twoPow 63 := Nat.le_trans h (twoPow_le (by decide))
  have hunits : units (magnitudeOf n.natAbs) = n.natAbs * twoPow 1074 := by
    by_cases hn : n.natAbs = 0
    · rw [hn, Nat.zero_mul]
      exact units_zero
    obtain hlt | heq := Nat.lt_or_eq_of_le h
    · exact units_short hn (Nat.le_of_lt_succ ((Nat.log2_lt hn).2 hlt))
    · rw [heq]
      decide +kernel
  rw [value?_of_isFinite (isFinite_ofInt hword), rational_eq, (parts_ofInt hword).2, hunits,
    signed_ofInt hword, ← mul_units, Int.cast_mul, Int.cast_natCast, cast_twoPow,
    mul_div_cancel_right₀ _ (pow_ne_zero 1074 two_ne_zero)]

end Double

end ScriptCore
