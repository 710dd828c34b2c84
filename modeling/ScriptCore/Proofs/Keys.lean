import ScriptCore.Proofs.Doubles
import ScriptCore.Proofs.Tables

/-!
# Keys and raw equality

Keys are told apart by raw equality, and found by what they feed to a hasher (`Val.digest`). The
latter tells all values apart (`digest_inj`). Raw equality compares an integer with a float by the
word of the integer. As no key is a float that stands for a 64-bit integer, it is equality of keys,
but for one case: the last 512 integers all become the word `2 ^ 63`, so each of them is taken for
the float `2 ^ 63` (`rawEq_iff`). They feed different data to a hasher, and they are not taken for
each other, so raw equality is not transitive (`rawEq_edge`).
-/

namespace ScriptCore

open Double (edge)

/-! ## Equality of words -/

namespace Double

theorem eq_comm (x y : Double) : x.eq y = y.eq x := by
  unfold eq comparable
  rw [Bool.and_comm (!x.isNaN), Bool.beq_comm]

/-- Other words than those of the zeros and the not-a-numbers are equal only to themselves. -/
theorem eq_iff {x y : Double} (hnan : ¬ x.isNaN) (hzero : x.magnitude ≠ 0) : x.eq y ↔ x = y := by
  constructor
  · intro h
    simp only [eq, Bool.and_eq_true, beq_iff_eq] at h
    have horder := h.2
    unfold order at horder
    cases hx : x.isNegative <;> cases hy : y.isNegative <;>
      simp only [hx, hy, if_true, if_false, Bool.false_eq_true] at horder
    · exact ext_parts (hx.trans hy.symm) (by omega)
    · omega
    · omega
    · exact ext_parts (hx.trans hy.symm) (by omega)
  · rintro rfl
    simp [eq, comparable, hnan]

/-- The zeros stand for an integer. -/
theorem magnitude_ne_zero {x : Double} (h : x.toInt64? = none) : x.magnitude ≠ 0 := by
  intro hzero
  have hfinite : x.isFinite := by
    unfold isFinite
    rw [hzero]
    rfl
  have hexponent : x.exponent = 0 := by
    unfold exponent
    rw [hzero]
    rfl
  have hscale : x.scale = -((1074 : Nat) : Int) := by
    unfold scale
    rw [if_pos hexponent]
    rfl
  have hsignificand : x.significand = 0 * twoPow 1074 := by
    unfold significand fraction
    rw [if_pos hexponent, hzero, Nat.zero_mul]
    rfl
  rw [toInt64?, toInteger?_of_unit hfinite hscale hsignificand] at h
  unfold signed at h
  split at h <;> cases h

end Double

namespace Val

variable {a b c : Val}

/-! ## Keys -/

/-- A value that a table has as a key. -/
def IsKey (a : Val) : Prop := ∃ x : Val, x.toKey = .ok a

theorem IsKey.toKey (h : a.IsKey) : a.toKey = .ok a := by
  obtain ⟨x, hx⟩ := h
  exact toKey_toKey hx

/-- A float that is a key is a number, and stands for no 64-bit integer. -/
theorem IsKey.float {x : Double} (h : (Val.float x).IsKey) :
    ¬ x.isNaN ∧ x.toInt64? = none := by
  have hkey := h.toKey
  unfold Val.toKey at hkey
  dsimp only at hkey
  split at hkey
  · cases hkey
  · rename_i hnan
    refine ⟨hnan, ?_⟩
    cases hx : x.toInt64? with
    | none => rfl
    | some n => rw [hx] at hkey; cases hkey

/-! ## What keys feed to a hasher -/

/-- What a value feeds to a hasher behind its tag. -/
inductive Datum
  | none
  | bool (b : Bool)
  | int (n : Int64)
  | word (bits : UInt64)
  | text (s : String)
  | address (a : Option Nat)
deriving DecidableEq

/-- What a value feeds to a hasher: a tag and a datum. -/
def digest : Val → Nat × Datum
  | .nil => (0, .none)
  | .bool b => (1, .bool b)
  | .int n => (2, .int n)
  | .float x => (3, .word x.bits)
  | .str s => (4, .text s)
  | v => (5, .address v.address?)

/-- Different values feed different data to a hasher: the tags tell the kinds apart, except those of
references, and every object has its own address. -/
theorem digest_inj : a.digest = b.digest ↔ a = b := by
  refine ⟨fun h => ?_, fun h => h ▸ rfl⟩
  cases a <;> cases b <;>
    grind [digest, address?, TableId.address, FnId.address, CoId.address, ScriptCore.address,
      Double, TableId, FnId, CoId]

/-! ## Raw equality of keys -/

/-- One value is `2 ^ 63`, and the other one of the 512 integers below. -/
def Confused (a b : Val) : Prop :=
  ∃ n : Int64, (twoPow 63 : Int) - 512 ≤ n.toInt ∧
    (a = .int n ∧ b = .float edge ∨ a = .float edge ∧ b = .int n)

theorem Confused.symm (h : a.Confused b) : b.Confused a := by
  obtain ⟨n, hn, hab⟩ := h
  exact ⟨n, hn, hab.symm.imp And.symm And.symm⟩

theorem confused_int {n : Int64} {x : Double} :
    (Val.int n).Confused (.float x) ↔ (twoPow 63 : Int) - 512 ≤ n.toInt ∧ x = edge := by
  constructor
  · rintro ⟨k, hk, ⟨hn, hx⟩ | ⟨hn, -⟩⟩
    · cases hn
      cases hx
      exact ⟨hk, rfl⟩
    · cases hn
  · rintro ⟨hn, rfl⟩
    exact ⟨n, hn, .inl ⟨rfl, rfl⟩⟩

theorem Confused.ne (h : a.Confused b) : a ≠ b := by
  rintro rfl
  obtain ⟨n, -, ⟨hint, hfloat⟩ | ⟨hfloat, hint⟩⟩ := h <;> cases hint.symm.trans hfloat

theorem rawEq_comm (a b : Val) : a.rawEq b = b.rawEq a := by
  cases a <;> cases b <;> simp [rawEq, Double.eq_comm, Bool.beq_comm]

/-- An integer and a float that is a key are equal only at the edge. -/
theorem ofInt_eq_key {n : Int64} {x : Double} (hx : (Val.float x).IsKey) :
    (Double.ofInt n.toInt).eq x ↔ (twoPow 63 : Int) - 512 ≤ n.toInt ∧ x = edge := by
  obtain ⟨hnan, hint⟩ := hx.float
  rw [Double.eq_comm, Double.eq_iff hnan (Double.magnitude_ne_zero hint)]
  constructor
  · rintro rfl
    have hedge := (Double.toInt64?_ofInt_eq_none_iff n).1 hint
    exact ⟨hedge, Double.ofInt_eq_edge hedge⟩
  · rintro ⟨hedge, rfl⟩
    exact (Double.ofInt_eq_edge hedge).symm

/-- **Raw equality of keys** is equality, but at the edge. -/
theorem rawEq_iff (ha : a.IsKey) (hb : b.IsKey) : a.rawEq b ↔ a = b ∨ a.Confused b := by
  cases a with
  | float x =>
    cases b with
    | float y =>
      obtain ⟨hnan, hint⟩ := ha.float
      simpa [rawEq, Confused] using Double.eq_iff hnan (Double.magnitude_ne_zero hint)
    | int n =>
      rw [show (Val.float x).Confused (.int n) ↔ _ from ⟨.symm, .symm⟩, confused_int,
        ← ofInt_eq_key ha]
      simp [rawEq]
    | nil | bool | str | table | fn | co => simp [rawEq, Confused]
  | int n =>
    cases b with
    | float x =>
      rw [confused_int, ← ofInt_eq_key hb]
      simp [rawEq]
    | nil | bool | int | str | table | fn | co => simp [rawEq, Confused]
  | nil | bool | str | table | fn | co => cases b <;> simp [rawEq, Confused]

theorem rawEq_refl (ha : a.IsKey) : a.rawEq a := (rawEq_iff ha ha).2 (.inl rfl)

/-- Raw equality of keys is transitive, but over the edge. -/
theorem rawEq_trans (ha : a.IsKey) (hb : b.IsKey) (hc : c.IsKey) (hab : a.rawEq b)
    (hbc : b.rawEq c) (hedge : b ≠ .float edge) : a.rawEq c := by
  obtain rfl | ⟨n, -, ⟨-, rfl⟩ | ⟨rfl, rfl⟩⟩ := (rawEq_iff ha hb).1 hab
  · exact hbc
  · exact absurd rfl hedge
  · obtain rfl | ⟨k, -, ⟨-, rfl⟩ | ⟨hk, -⟩⟩ := (rawEq_iff hb hc).1 hbc
    · exact hab
    · exact rawEq_refl ha
    · cases hk

end Val

/-- **Keys.** Raw equality of keys is reflexive and symmetric. It is the same as to feed the same
data to a hasher, so that a write at a key is seen at equal keys and nowhere else, unless one key
is the float `2 ^ 63` and the other one of the 512 integers below: these are equal, but they feed
different data. Over this float raw equality is not transitive; over all other keys it is. -/
theorem keys_coherent (a b c v : Val) (t : Table) :
    (a.IsKey → a.rawEq a) ∧ a.rawEq b = b.rawEq a ∧
    (a.IsKey → b.IsKey → c.IsKey → b ≠ .float edge →
      a.rawEq b → b.rawEq c → a.rawEq c) ∧
    (a.IsKey → b.IsKey → (a.rawEq b ↔ a.digest = b.digest ∨ a.Confused b)) ∧
    (a.Confused b → a.digest ≠ b.digest) ∧
    (t.Sound → a.IsKey → b.IsKey →
      (a.rawEq b → ¬ a.Confused b → (t.insert a v).get b = v) ∧
      (¬ a.rawEq b → (t.insert a v).get b = t.get b)) := by
  refine ⟨Val.rawEq_refl, Val.rawEq_comm a b, fun ha hb hc hedge hab hbc =>
    Val.rawEq_trans ha hb hc hab hbc hedge, fun ha hb => ?_, fun hab => ?_, fun ht ha hb => ?_⟩
  · rw [Val.digest_inj, Val.rawEq_iff ha hb]
  · rw [ne_eq, Val.digest_inj]
    exact hab.ne
  · have hget (u : Table) : u.get b = u.lookup b := by
      unfold Table.get
      rw [hb.toKey]
    rw [hget, hget, ht.lookup_insert, Val.rawEq_iff ha hb]
    refine ⟨fun hab hclear => if_pos (hab.resolve_right hclear).symm, fun hne => if_neg ?_⟩
    rintro rfl
    exact hne (.inl rfl)

/-- Two integers that the float above them is equal to are not equal to each other. -/
theorem rawEq_edge :
    let last : Val := .int Int64.maxValue
    let before : Val := .int (Int64.maxValue - 1)
    (last.IsKey ∧ (Val.float edge).IsKey ∧ before.IsKey) ∧
      last.rawEq (.float edge) ∧ (Val.float edge).rawEq before ∧ ¬ last.rawEq before ∧
      last.digest ≠ (Val.float edge).digest :=
  ⟨⟨⟨.int Int64.maxValue, rfl⟩, ⟨.float edge, rfl⟩, ⟨.int (Int64.maxValue - 1), rfl⟩⟩,
    by decide +kernel⟩

end ScriptCore
