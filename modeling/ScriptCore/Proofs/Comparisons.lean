import Mathlib.Order.Compare
import ScriptCore.Operator
import ScriptCore.Proofs.DoubleValues
import ScriptCore.Proofs.Keys

/-!
# Comparison of numbers

A number stands for an exact value (`Val.number?`). Two integers are compared by their values, and
any other two numbers by the places of their words (`ordered_places`). The places follow the values,
except that an integer of more than 53 bits may have the word of another value
(`place_mono`). So the comparison is exact, unless it is that of an integer with the float that it
is rounded to (`ordered_exact`). Then the two count as equal (`ordered_blurred`), so equality is not
transitive (`rawEq_blurred`). `numbers_compare` puts it together with the laws that are left.
-/

namespace ScriptCore

open Double

/-- An operator answers true, and needs no handler for it. -/
def BinOp.Holds (op : BinOp) (a b : Val) : Prop := op.apply a b = .ok (some (.bool true))

namespace Val

/-- The value of a number: exact for integers, and for floats as `Double.value?`. -/
def number? : Val → Option Extended
  | .int n => some (((n.toInt : ℚ) : WithTop ℚ) : Extended)
  | .float x => x.value?
  | _ => none

/-- The place of the word of a number. -/
def place : Val → Int
  | .int n => (ofInt n.toInt).order
  | .float x => x.order
  | _ => 0

/-- One is an integer and the other its word, though a word for another value. -/
def Blurred : Val → Val → Prop
  | .int n, .float x | .float x, .int n =>
    (ofInt n.toInt).eq x ∧ x.value? ≠ some (((n.toInt : ℚ) : WithTop ℚ) : Extended)
  | _, _ => False

/-- Two numbers are compared with a given outcome. -/
structure Ordered (a b : Val) (o : Ordering) : Prop where
  rawEq : a.rawEq b = (o == .eq)
  eq : BinOp.eq.apply a b = .ok (some (.bool (o == .eq)))
  ne : BinOp.ne.apply a b = .ok (some (.bool (o != .eq)))
  lt : BinOp.lt.apply a b = .ok (some (.bool (o == .lt)))
  le : BinOp.le.apply a b = .ok (some (.bool (o != .gt)))

variable {a b c : Val} {x y z : Extended} {o : Ordering}

/-! ## Outcomes -/

theorem Ordered.of_ordering (ha : a.number? = some x) (hraw : a.rawEq b = (o == .eq))
    (ho : ordering a b = some o) : a.Ordered b o := by
  have htable : a.isTable = false := by
    cases a <;> first | rfl | cases ha
  refine ⟨hraw, ?_, ?_, ?_, ?_⟩
  · rw [BinOp.apply, hraw, htable, Bool.false_and]
    cases o <;> rfl
  · rw [BinOp.apply, hraw, htable, Bool.false_and]
    cases o <;> rfl
  · rw [BinOp.apply, ho]
    rfl
  · rw [BinOp.apply, ho]
    rfl

theorem Ordered.eq_holds_iff (h : a.Ordered b o) : BinOp.eq.Holds a b ↔ o = .eq := by
  rw [BinOp.Holds, h.eq]
  simp

theorem Ordered.lt_holds_iff (h : a.Ordered b o) : BinOp.lt.Holds a b ↔ o = .lt := by
  rw [BinOp.Holds, h.lt]
  simp

theorem Ordered.le_holds_iff (h : a.Ordered b o) : BinOp.le.Holds a b ↔ o ≠ .gt := by
  rw [BinOp.Holds, h.le]
  simp

/-- Words that are numbers are compared by their places. -/
theorem compare_words {v w : Double} (hv : ¬ v.isNaN) (hw : ¬ w.isNaN) :
    v.eq w = (cmp v.order w.order == .eq) ∧
      (if v.lt w then Ordering.lt else if v.eq w then .eq else .gt) = cmp v.order w.order := by
  have hcomparable : comparable v w = true := by simp [comparable, hv, hw]
  unfold Double.eq Double.lt
  rw [hcomparable, Bool.true_and, Bool.true_and]
  rcases lt_trichotomy v.order w.order with h | h | h
  · rw [(cmp_eq_lt_iff _ _).2 h]
    simp [h, h.ne]
  · rw [(cmp_eq_eq_iff _ _).2 h]
    simp [h]
  · rw [(cmp_eq_gt_iff _ _).2 h]
    simp [h.not_gt, h.ne']

theorem ofInt_isNumber (n : Int64) : ¬ (ofInt n.toInt).isNaN :=
  not_isNaN_of_isFinite (isFinite_ofInt (natAbs_le n))

/-- Two numbers are integers, or compared by the places of their words. -/
theorem ordered_places (ha : a.number? = some x) (hb : b.number? = some y) :
    (∃ m n, a = .int m ∧ b = .int n) ∨ a.Ordered b (cmp a.place b.place) := by
  cases a with
  | int m =>
    cases b with
    | int n => exact .inl ⟨m, n, rfl, rfl⟩
    | float w =>
      obtain ⟨heq, hord⟩ := compare_words (ofInt_isNumber m) (value?_cases hb).1
      exact .inr (.of_ordering ha heq (congrArg some hord))
    | _ => cases hb
  | float v =>
    cases b with
    | int n =>
      obtain ⟨heq, hord⟩ := compare_words (value?_cases ha).1 (ofInt_isNumber n)
      exact .inr (.of_ordering ha ((Double.eq_comm _ _).trans heq) (congrArg some hord))
    | float w =>
      obtain ⟨heq, hord⟩ := compare_words (value?_cases ha).1 (value?_cases hb).1
      exact .inr (.of_ordering ha heq (congrArg some hord))
    | _ => cases hb
  | _ => cases ha

/-- Integers are compared as such. -/
theorem ordered_ints (m n : Int64) : (Val.int m).Ordered (.int n) (cmp m.toInt n.toInt) := by
  have hraw : (Val.int m).rawEq (.int n) = (cmp m.toInt n.toInt == .eq) := by
    rw [Bool.eq_iff_iff, beq_iff_eq, cmp_eq_eq_iff, Int64.toInt_inj]
    simp [rawEq]
  have hord : compare m n = cmp m.toInt n.toInt := by
    show compareOfLessAndEq m n = _
    unfold compareOfLessAndEq
    rcases lt_trichotomy m.toInt n.toInt with h | h | h
    · rw [if_pos (Int64.lt_iff_toInt_lt.2 h), (cmp_eq_lt_iff _ _).2 h]
    · rw [if_neg (mt Int64.lt_iff_toInt_lt.1 h.not_lt), if_pos (Int64.toInt_inj.1 h),
        (cmp_eq_eq_iff _ _).2 h]
    · rw [if_neg (mt Int64.lt_iff_toInt_lt.1 h.not_gt), if_neg (mt (congrArg Int64.toInt) h.ne'),
        (cmp_eq_gt_iff _ _).2 h]
  exact .of_ordering rfl hraw (congrArg some hord)

/-! ## Values -/

/-- **Places do not fall.** A number of no smaller value has no smaller place. -/
theorem place_mono (ha : a.number? = some x) (hb : b.number? = some y) (h : x ≤ y) :
    a.place ≤ b.place := by
  cases a with
  | int m =>
    cases ha
    cases b with
    | int n =>
      cases hb
      rw [WithBot.coe_le_coe, WithTop.coe_le_coe, Int.cast_le] at h
      exact ofInt_mono (natAbs_le m) (natAbs_le n) h
    | float w =>
      obtain ⟨-, ⟨hw, rfl⟩ | ⟨hw, rfl⟩ | ⟨-, rfl⟩⟩ := value?_cases hb
      · rw [WithBot.coe_le_coe, WithTop.coe_le_coe] at h
        exact (ofInt_next (natAbs_le m)).2 h
      · show _ ≤ w.order
        rw [hw]
        exact (order_bounds (isFinite_ofInt (natAbs_le m))).2.le
      · exact absurd h (WithBot.not_coe_le_bot _)
    | _ => cases hb
  | float v =>
    cases b with
    | int n =>
      cases hb
      obtain ⟨-, ⟨hv, rfl⟩ | ⟨-, rfl⟩ | ⟨hv, rfl⟩⟩ := value?_cases ha
      · rw [WithBot.coe_le_coe, WithTop.coe_le_coe] at h
        exact (ofInt_next (natAbs_le n)).1 h
      · exact absurd (WithBot.coe_le_coe.1 h) (WithTop.not_top_le_coe _)
      · show v.order ≤ _
        rw [hv]
        exact (order_bounds (isFinite_ofInt (natAbs_le n))).1.le
    | float w => exact (order_le_iff ha hb).2 h
    | _ => cases hb
  | _ => cases ha

theorem eq_iff_order {v w : Double} (hv : ¬ v.isNaN) (hw : ¬ w.isNaN) :
    v.eq w ↔ v.order = w.order := by
  rw [(compare_words hv hw).1, beq_iff_eq, cmp_eq_eq_iff]

/-- Numbers of one place have the same value, unless they are an integer and the word of it, or two
integers. -/
theorem blurred_of_place (ha : a.number? = some x) (hb : b.number? = some y)
    (hplace : a.place = b.place) (hne : x ≠ y) :
    (∃ m n, a = .int m ∧ b = .int n) ∨ a.Blurred b := by
  cases a with
  | int m =>
    cases ha
    cases b with
    | int n => exact .inl ⟨m, n, rfl, rfl⟩
    | float w =>
      refine .inr ⟨(eq_iff_order (ofInt_isNumber m) (value?_cases hb).1).2 hplace, ?_⟩
      rw [show w.value? = some y from hb, ne_eq, Option.some_inj]
      exact hne.symm
    | _ => cases hb
  | float v =>
    cases b with
    | int n =>
      cases hb
      refine .inr ⟨(eq_iff_order (ofInt_isNumber n) (value?_cases ha).1).2 hplace.symm, ?_⟩
      rw [show v.value? = some x from ha, ne_eq, Option.some_inj]
      exact hne
    | float w =>
      have hle : x ≤ y := (order_le_iff ha hb).1 hplace.le
      have hge : y ≤ x := (order_le_iff hb ha).1 hplace.ge
      exact (hne (le_antisymm hle hge)).elim
    | _ => cases hb
  | _ => cases ha

/-- What a blurred pair has in common. -/
theorem Blurred.parts (ha : a.number? = some x) (hb : b.number? = some y) (h : a.Blurred b) :
    a.place = b.place ∧ x ≠ y ∧ ¬ ∃ m n, a = .int m ∧ b = .int n := by
  cases a with
  | int m =>
    cases b with
    | float w =>
      refine ⟨(eq_iff_order (ofInt_isNumber m) (value?_cases hb).1).1 h.1, ?_, ?_⟩
      · rintro rfl
        exact h.2 (hb.trans ha.symm)
      · rintro ⟨_, n, -, hn⟩
        cases hn
    | _ => exact h.elim
  | float v =>
    cases b with
    | int n =>
      refine ⟨((eq_iff_order (ofInt_isNumber n) (value?_cases ha).1).1 h.1).symm, ?_, ?_⟩
      · rintro rfl
        exact h.2 (ha.trans hb.symm)
      · rintro ⟨m, _, hm, -⟩
        cases hm
    | _ => exact h.elim
  | _ => exact h.elim

/-! ## Outcomes and values -/

/-- Values in strict order have places in strict order, but for integers and blurred pairs. -/
theorem place_strictMono (ha : a.number? = some x) (hb : b.number? = some y)
    (hints : ¬ ∃ m n, a = .int m ∧ b = .int n) (hblurred : ¬ a.Blurred b) (h : x < y) :
    a.place < b.place := by
  refine lt_of_le_of_ne (place_mono ha hb h.le) fun hplace => ?_
  exact (blurred_of_place ha hb hplace h.ne).elim hints hblurred

theorem Blurred.symm (h : a.Blurred b) : b.Blurred a := by
  cases a <;> cases b <;> exact h

/-- **Exact comparison.** Other numbers than blurred pairs are compared by their values. -/
theorem ordered_exact (ha : a.number? = some x) (hb : b.number? = some y) (h : ¬ a.Blurred b) :
    a.Ordered b (cmp x y) := by
  by_cases hints : ∃ m n, a = .int m ∧ b = .int n
  · obtain ⟨m, n, rfl, rfl⟩ := hints
    cases ha
    cases hb
    have hmono : StrictMono fun k : Int => (((k : ℚ) : WithTop ℚ) : Extended) := fun i j hij =>
      WithBot.coe_lt_coe.2 (WithTop.coe_lt_coe.2 (Int.cast_lt.2 hij))
    have hints := ordered_ints m n
    rw [← hmono.cmp_map_eq] at hints
    exact hints
  · have hints' : ¬ ∃ m n, b = .int m ∧ a = .int n := fun ⟨m, n, hm, hn⟩ => hints ⟨n, m, hn, hm⟩
    have hplaces := (ordered_places ha hb).resolve_left hints
    suffices cmp x y = cmp a.place b.place from this ▸ hplaces
    rcases lt_trichotomy x y with hlt | rfl | hgt
    · rw [(cmp_eq_lt_iff _ _).2 hlt,
        (cmp_eq_lt_iff _ _).2 (place_strictMono ha hb hints h hlt)]
    · rw [(cmp_eq_eq_iff _ _).2 rfl, (cmp_eq_eq_iff _ _).2
        (le_antisymm (place_mono ha hb le_rfl) (place_mono hb ha le_rfl))]
    · rw [(cmp_eq_gt_iff _ _).2 hgt, (cmp_eq_gt_iff _ _).2
        (place_strictMono hb ha hints' (fun hba => h hba.symm) hgt)]

/-- A blurred pair counts as equal. -/
theorem ordered_blurred (ha : a.number? = some x) (hb : b.number? = some y) (h : a.Blurred b) :
    a.Ordered b .eq := by
  obtain ⟨hplace, -, hints⟩ := h.parts ha hb
  have hplaces := (ordered_places ha hb).resolve_left hints
  rw [(cmp_eq_eq_iff _ _).2 hplace] at hplaces
  exact hplaces

/-- Two numbers are compared with one outcome, which is turned around with them. -/
theorem ordered_both (ha : a.number? = some x) (hb : b.number? = some y) :
    ∃ o : Ordering, a.Ordered b o ∧ b.Ordered a o.swap := by
  by_cases h : a.Blurred b
  · exact ⟨.eq, ordered_blurred ha hb h, ordered_blurred hb ha h.symm⟩
  · refine ⟨cmp x y, ordered_exact ha hb h, ?_⟩
    rw [cmp_swap]
    exact ordered_exact hb ha fun hba => h hba.symm

/-! ## Laws -/

/-- What is less has a smaller value. -/
theorem lt_of_holds (ha : a.number? = some x) (hb : b.number? = some y)
    (h : BinOp.lt.Holds a b) : x < y := by
  by_cases hblurred : a.Blurred b
  · exact nomatch (ordered_blurred ha hb hblurred).lt_holds_iff.1 h
  · exact (cmp_eq_lt_iff _ _).1 ((ordered_exact ha hb hblurred).lt_holds_iff.1 h)

/-- What is less has a smaller place, if it is not the comparison of two integers. -/
theorem place_lt_of_holds (ha : a.number? = some x) (hb : b.number? = some y)
    (h : BinOp.lt.Holds a b) : (∃ m n, a = .int m ∧ b = .int n) ∨ a.place < b.place :=
  (ordered_places ha hb).imp_right fun ho => (cmp_eq_lt_iff _ _).1 (ho.lt_holds_iff.1 h)

/-- Less than is transitive, blurred or not. -/
theorem lt_trans_holds (ha : a.number? = some x) (hb : b.number? = some y)
    (hc : c.number? = some z) (hab : BinOp.lt.Holds a b) (hbc : BinOp.lt.Holds b c) :
    BinOp.lt.Holds a c := by
  have hxy := lt_of_holds ha hb hab
  have hyz := lt_of_holds hb hc hbc
  by_cases h : a.Blurred c
  · -- one of the two steps is not between integers, and goes to a greater place
    obtain ⟨hplace, -, hints⟩ := h.parts ha hc
    have hab' := place_mono ha hb hxy.le
    have hbc' := place_mono hb hc hyz.le
    obtain ⟨m, n, rfl, rfl⟩ | hlt := place_lt_of_holds ha hb hab
    · obtain ⟨_, k, -, rfl⟩ | hlt := place_lt_of_holds hb hc hbc
      · exact (hints ⟨m, k, rfl, rfl⟩).elim
      · omega
    · omega
  · exact (ordered_exact ha hc h).lt_holds_iff.2 ((cmp_eq_lt_iff _ _).2 (hxy.trans hyz))

/-- Equality is transitive where the pairs are not blurred. -/
theorem eq_trans_holds (ha : a.number? = some x) (hb : b.number? = some y)
    (hc : c.number? = some z) (hab : ¬ a.Blurred b) (hbc : ¬ b.Blurred c)
    (h : BinOp.eq.Holds a b) (h' : BinOp.eq.Holds b c) : BinOp.eq.Holds a c := by
  have hxy := (cmp_eq_eq_iff _ _).1 ((ordered_exact ha hb hab).eq_holds_iff.1 h)
  have hyz := (cmp_eq_eq_iff _ _).1 ((ordered_exact hb hc hbc).eq_holds_iff.1 h')
  by_cases hac : a.Blurred c
  · exact (ordered_blurred ha hc hac).eq_holds_iff.2 rfl
  · exact (ordered_exact ha hc hac).eq_holds_iff.2 ((cmp_eq_eq_iff _ _).2 (hxy.trans hyz))

/-- At most is transitive where the pairs are not blurred. -/
theorem le_trans_holds (ha : a.number? = some x) (hb : b.number? = some y)
    (hc : c.number? = some z) (hab : ¬ a.Blurred b) (hbc : ¬ b.Blurred c)
    (h : BinOp.le.Holds a b) (h' : BinOp.le.Holds b c) : BinOp.le.Holds a c := by
  have hle {u v : Extended} : cmp u v ≠ .gt ↔ u ≤ v := by
    rw [ne_eq, cmp_eq_gt_iff, not_lt]
  have hxy := hle.1 ((ordered_exact ha hb hab).le_holds_iff.1 h)
  have hyz := hle.1 ((ordered_exact hb hc hbc).le_holds_iff.1 h')
  by_cases hac : a.Blurred c
  · exact (ordered_blurred ha hc hac).le_holds_iff.2 nofun
  · exact (ordered_exact ha hc hac).le_holds_iff.2 (hle.2 (hxy.trans hyz))

/-- An integer up to `2 ^ 53` is in no blurred pair. -/
theorem Blurred.large {n : Int64} {w : Double} (h : (Val.int n).Blurred (.float w))
    (hw : (Val.float w).number? = some y) : twoPow 53 < n.toInt.natAbs := by
  refine Nat.lt_of_not_le fun hle => h.2 ?_
  have hword := value?_ofInt hle
  have horder := (eq_iff_order (ofInt_isNumber n) (value?_cases hw).1).1 h.1
  have hle := (order_le_iff hword hw).1 horder.le
  have hge := (order_le_iff hw hword).1 horder.ge
  exact hw.trans (congrArg some (le_antisymm hge hle))

end Val

/-- **Comparison of numbers.** Numbers `a` and `b` of the values `x` and `y` are compared exactly,
unless they are an integer above `2 ^ 53` and the float that it is rounded to. These have different
values, and are compared as if they had one. Always one of less than, equal and greater holds, both
ways round, and less than is transitive; equality and at most are transitive where the two pairs
are not of this kind. -/
theorem numbers_compare {a b c : Val} {x y z : Extended} (ha : a.number? = some x)
    (hb : b.number? = some y) (hc : c.number? = some z) :
    (¬ a.Blurred b → a.Ordered b (cmp x y)) ∧
    (a.Blurred b → x ≠ y ∧ a.Ordered b .eq) ∧
    (∀ n w, a.Blurred b → a = .int n ∧ b = .float w ∨ a = .float w ∧ b = .int n →
      twoPow 53 < n.toInt.natAbs) ∧
    (∃ o : Ordering, a.Ordered b o ∧ b.Ordered a o.swap) ∧
    (BinOp.lt.Holds a b → BinOp.lt.Holds b c → BinOp.lt.Holds a c) ∧
    (¬ a.Blurred b → ¬ b.Blurred c →
      (BinOp.eq.Holds a b → BinOp.eq.Holds b c → BinOp.eq.Holds a c) ∧
      (BinOp.le.Holds a b → BinOp.le.Holds b c → BinOp.le.Holds a c)) := by
  refine ⟨Val.ordered_exact ha hb, fun h => ⟨(h.parts ha hb).2.1, Val.ordered_blurred ha hb h⟩,
    fun n w h hparts => ?_, Val.ordered_both ha hb, Val.lt_trans_holds ha hb hc,
    fun hab hbc => ⟨Val.eq_trans_holds ha hb hc hab hbc, Val.le_trans_holds ha hb hc hab hbc⟩⟩
  obtain ⟨rfl, rfl⟩ | ⟨rfl, rfl⟩ := hparts
  · exact h.large hb
  · exact h.symm.large ha

theorem numbers_compare_mixed :
    let one : Val := .int 1
    let more : Val := .float ⟨0x3ff8000000000000⟩
    let infinite : Val := .float ⟨0x7ff0000000000000⟩
    one.Ordered more (cmp (((1 : ℚ) : WithTop ℚ) : Extended) ((3 / 2 : ℚ) : WithTop ℚ)) ∧
      BinOp.lt.Holds one infinite := by
  have hone : (Val.int 1).number? = some (((1 : ℚ) : WithTop ℚ) : Extended) := rfl
  have hmore : (Val.float ⟨0x3ff8000000000000⟩).number? =
      some (((3 / 2 : ℚ) : WithTop ℚ) : Extended) := by
    decide +kernel
  have hinfinite : (Val.float ⟨0x7ff0000000000000⟩).number? = some ⊤ := rfl
  have hclear : ¬ (Val.int 1).Blurred (.float ⟨0x3ff8000000000000⟩) := fun h =>
    absurd h.1 (by decide +kernel)
  obtain ⟨hexact, -, -, -, htrans, -⟩ := numbers_compare hone hmore hinfinite
  exact ⟨hexact hclear, htrans rfl rfl⟩

/-- An integer of 54 bits, the float that it is rounded to, and the integer that the float stands
for. -/
theorem rawEq_blurred :
    let odd : Val := .int 9007199254740993
    let word : Val := .float ⟨0x4340000000000000⟩
    let even : Val := .int 9007199254740992
    word.number? = even.number? ∧ odd.rawEq word ∧ word.rawEq even ∧ ¬ odd.rawEq even ∧
      BinOp.lt.apply even odd = .ok (some (.bool true)) ∧
      BinOp.lt.apply word odd = .ok (some (.bool false)) ∧
      BinOp.le.apply odd word = .ok (some (.bool true)) ∧
      BinOp.le.apply word even = .ok (some (.bool true)) ∧
      BinOp.le.apply odd even = .ok (some (.bool false)) :=
  ⟨by decide +kernel, by decide +kernel, by decide +kernel, by decide +kernel, rfl, rfl, rfl, rfl, rfl⟩

end ScriptCore
