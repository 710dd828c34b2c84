import ScriptCore.Table

/-!
# Tables represent maps

A table that is only written to by `Table.insert` is `Sound`: its array part ends with a value, no
value of its hash part is nil, and the keys of its array part and the one behind lie nowhere else.
A write then changes the value at its key and at no other (`Sound.lookup_insert`), whichever way
entries move between the parts. So after any edits a table holds at each key what was last
written there (`get_edited`), and its length is a border.
-/

namespace ScriptCore

/-! ## Keys -/

/-- A key in normal form is its own normal form. -/
theorem Val.toKey_toKey {key k : Val} (h : key.toKey = .ok k) : k.toKey = .ok k := by
  cases key with
  | nil => cases h
  | float x =>
    simp only [Val.toKey] at h
    split at h
    · cases h
    · rename_i hnan
      split at h
      · cases h; rfl
      · rename_i hint
        cases h
        simp only [Val.toKey, if_neg hnan, hint]
  | bool | int | str | table | fn | co => cases h; rfl

/-- Nil and not-a-number are the values that are no keys. -/
theorem Val.toKey_error_iff {key : Val} :
    (∃ c, key.toKey = .error c) ↔ key = .nil ∨ ∃ x, key = .float x ∧ x.isNaN := by
  cases key with
  | nil => simp [Val.toKey]
  | float x => cases hnan : x.isNaN <;> simp [Val.toKey, hnan]
  | bool | int | str | table | fn | co => simp [Val.toKey]

/-- A float that stands for a 64-bit integer is the same key as the integer. -/
theorem Val.toKey_float {x : Double} {n : Int64} (hx : x.toInteger? = some n.toInt) :
    (Val.float x).toKey = (Val.int n).toKey := by
  have hnan : x.isNaN = false := by
    have hfinite : x.isFinite := by
      cases h : x.isFinite with
      | true => rfl
      | false => simp [Double.toInteger?, h] at hx
    simp only [Double.isFinite, decide_eq_true_eq] at hfinite
    simp only [Double.isNaN, decide_eq_false_iff_not]
    omega
  have hint : x.toInt64? = some n := by
    rw [Double.toInt64?, hx]
    simp [Integer.ofInt?]
  simp [Val.toKey, hnan, hint]

/-- The index `i` of an array part is that of the key `i + 1`. -/
def IsIndex (key : Val) (i : Nat) : Prop := ∃ n : Int64, key = .int n ∧ n.toInt = i + 1

theorem IsIndex.unique {key : Val} {i j : Nat} (h : IsIndex key i) (k : IsIndex key j) : i = j := by
  obtain ⟨n, rfl, hn⟩ := h
  obtain ⟨m, hm, hj⟩ := k
  cases hm
  omega

/-- The key with a given index, if the integers go that far. -/
theorem isIndex_ofNat {i : Nat} (h : i + 1 < twoPow 63) : IsIndex (.ofNat (i + 1)) i :=
  ⟨_, rfl, (Int64.toInt_ofNat_of_lt h).trans (by omega)⟩

theorem IsIndex.eq_ofNat {key : Val} {i : Nat} (h : IsIndex key i) :
    i + 1 < twoPow 63 ∧ key = .ofNat (i + 1) := by
  obtain ⟨n, rfl, hn⟩ := h
  have hlt : i + 1 < twoPow 63 := by
    have hmax := n.toInt_lt
    have : twoPow 63 = 9223372036854775808 := rfl
    omega
  refine ⟨hlt, congrArg Val.int (Int64.toInt_inj.1 ?_)⟩
  rw [hn, Int64.toInt_ofNat_of_lt hlt]
  omega

namespace Table

theorem nextKey?_eq_some {len : Nat} {key : Val} : nextKey? len = some key ↔ IsIndex key len := by
  unfold nextKey?
  constructor
  · intro h
    split at h
    · rename_i hlt
      cases h
      exact isIndex_ofNat hlt
    · cases h
  · intro h
    obtain ⟨hlt, rfl⟩ := h.eq_ofNat
    exact if_pos hlt

theorem arrayIndex?_eq_some {key : Val} {len i : Nat} :
    arrayIndex? key len = some i ↔ IsIndex key i ∧ i < len := by
  cases key with
  | int n =>
    simp only [arrayIndex?, IsIndex, Val.int.injEq, exists_eq_left']
    split
    · simp only [Option.some.injEq]; omega
    · simp only [reduceCtorEq, false_iff]; omega
  | nil | bool | float | str | table | fn | co => simp [arrayIndex?, IsIndex]

theorem arrayIndex?_eq_none {key : Val} {len : Nat} :
    arrayIndex? key len = none ↔ ∀ i, IsIndex key i → len ≤ i := by
  rw [Option.eq_none_iff_forall_ne_some]
  refine forall_congr' fun i => ?_
  rw [ne_eq, arrayIndex?_eq_some, not_and, Nat.not_lt]

/-! ## Look-ups -/

variable {array : Array Val} {hash : Std.HashMap Val Val} {metatable : Option TableId}

theorem lookup_index {t : Table} {key : Val} {i : Nat} (h : IsIndex key i)
    (hi : i < t.array.size) : t.lookup key = t.array.getD i .nil := by
  unfold lookup
  rw [arrayIndex?_eq_some.2 ⟨h, hi⟩]

theorem lookup_other {t : Table} {key : Val} (h : ∀ i, IsIndex key i → t.array.size ≤ i) :
    t.lookup key = t.hash.getD key .nil := by
  unfold lookup
  rw [arrayIndex?_eq_none.2 h]

/-- A value that is put behind the array, and taken out of the hash part, is found there. -/
theorem lookup_push {next : Val} (hnext : IsIndex next array.size) (v key : Val) :
    lookup ⟨array.push v, hash.erase next, metatable⟩ key =
      if key = next then v else lookup ⟨array, hash, metatable⟩ key := by
  by_cases hkey : key = next
  · subst hkey
    rw [if_pos rfl, lookup_index hnext (by simp)]
    simp
  · rw [if_neg hkey]
    by_cases hin : ∃ i, IsIndex key i ∧ i < array.size
    · obtain ⟨i, hi, hlt⟩ := hin
      have hlt' : i < (array.push v).size := by simp only [Array.size_push]; omega
      rw [lookup_index (t := ⟨array.push v, _, _⟩) hi hlt', lookup_index hi hlt]
      simp [Array.getElem?_push, Nat.ne_of_lt hlt]
    · have hout : ∀ i, IsIndex key i → array.size ≤ i := fun i hi =>
        Nat.not_lt.1 fun hlt => hin ⟨i, hi, hlt⟩
      have hbehind : ∀ i, IsIndex key i → (array.push v).size ≤ i := fun i hi => by
        have hne : i ≠ array.size := by
          rintro rfl
          exact hkey (hi.eq_ofNat.2.trans hnext.eq_ofNat.2.symm)
        have := hout i hi
        simp only [Array.size_push]
        omega
      rw [lookup_other (t := ⟨array.push v, _, _⟩) hbehind, lookup_other hout]
      show (hash.erase next).getD key .nil = _
      rw [Std.HashMap.getD_erase, if_neg (by simpa using fun h => hkey h.symm)]

/-- Moving entries into the array changes no value. -/
theorem lookup_migrate (array : Array Val) (hash : Std.HashMap Val Val) (key : Val) :
    lookup ⟨(migrate array hash).1, (migrate array hash).2, metatable⟩ key =
      lookup ⟨array, hash, metatable⟩ key := by
  fun_induction migrate with
  | case1 => rfl
  | case2 array hash next hnext hmem ih =>
    have hindex := nextKey?_eq_some.1 hnext
    rw [ih, lookup_push hindex]
    split
    · rename_i hkey
      subst hkey
      rw [lookup_other fun i hi => Nat.le_of_eq (hindex.unique hi)]
      exact Std.HashMap.getElem_eq_getD
    · rfl
  | case3 => rfl

/-- Dropping nils from the end of an array drops nothing else. -/
theorem getD_trim (array : Array Val) (i : Nat) :
    (trim array).getD i .nil = array.getD i .nil := by
  fun_induction trim with
  | case1 array hpos hnil ih =>
    rw [ih]
    simp only [Array.getD_eq_getD_getElem?, Array.getElem?_pop]
    by_cases hi : i < array.size - 1
    · rw [if_pos hi]
    · rw [if_neg hi]
      by_cases hlast : i = array.size - 1
      · subst hlast
        rw [Array.getElem?_eq_getElem (by omega)]
        cases hv : array[array.size - 1] <;> rw [hv] at hnil <;> first | rfl | cases hnil
      · rw [Array.getElem?_eq_none (by omega)]
  | case2 => rfl
  | case3 => rfl

theorem size_trim_le (array : Array Val) : (trim array).size ≤ array.size := by
  fun_induction trim with
  | case1 array hpos hnil ih => exact Nat.le_trans ih (by simp)
  | case2 => exact Nat.le_refl _
  | case3 => exact Nat.le_refl _

/-- An array that was trimmed ends with a value. -/
theorem trim_last (array : Array Val) {i : Nat} (h : (trim array).size = i + 1) :
    (trim array).getD i .nil ≠ .nil := by
  fun_induction trim with
  | case1 array hpos hnil ih => exact ih h
  | case2 array hpos hnil =>
    obtain rfl : i = array.size - 1 := by omega
    rw [Array.getD_eq_getD_getElem?, Array.getElem?_eq_getElem (by omega)]
    intro hv
    exact hnil (by rw [show array[array.size - 1] = Val.nil from hv]; rfl)
  | case3 array hpos => omega

/-! ## Sound tables -/

/-- The array part ends with a value, and the hash part holds values at keys in normal form, none
of which is an index of the array part. -/
structure Orderly (t : Table) : Prop where
  bounded : t.array.size < twoPow 63
  last : ∀ i, t.array.size = i + 1 → t.array.getD i .nil ≠ .nil
  entries : ∀ key v : Val, t.hash[key]? = some v → v ≠ .nil ∧ key.toKey = .ok key
  apart : ∀ key i, IsIndex key i → i < t.array.size → key ∉ t.hash

/-- The hash part does not continue the array part either. -/
structure Sound (t : Table) : Prop extends t.Orderly where
  next : ∀ key, IsIndex key t.array.size → key ∉ t.hash

theorem sound_empty : Sound .empty where
  bounded := by decide
  last := nofun
  entries key v h := by simp [empty] at h
  apart := nofun
  next key _ := by simp [empty]

theorem entries_erase {t : Table} (h : t.Orderly) {key k v : Val}
    (hv : (t.hash.erase key)[k]? = some v) : v ≠ .nil ∧ k.toKey = .ok k := by
  rw [Std.HashMap.getElem?_erase] at hv
  split at hv
  · cases hv
  · exact h.entries k v hv

/-- Putting the next value behind the array keeps a table orderly. -/
theorem Orderly.push (h : Orderly ⟨array, hash, metatable⟩) {next v : Val}
    (hnext : IsIndex next array.size) (hv : v ≠ .nil) :
    Orderly ⟨array.push v, hash.erase next, metatable⟩ where
  bounded := by simpa using hnext.eq_ofNat.1
  last i hi := by
    obtain rfl : i = array.size := by simpa using hi.symm
    simpa using hv
  entries _ _ := entries_erase h
  apart key i hi hlt hmem := by
    obtain ⟨hne, hmem⟩ := Std.HashMap.mem_erase.1 hmem
    rcases Nat.lt_or_ge i array.size with hin | hout
    · exact h.apart key i hi hin hmem
    · obtain rfl : i = array.size := by simp at hlt; omega
      exact absurd (hnext.eq_ofNat.2.trans hi.eq_ofNat.2.symm) (by simpa using hne)

/-- Once all entries that continue the array have moved there, a table is sound. -/
theorem Orderly.migrate (h : Orderly ⟨array, hash, metatable⟩) :
    Sound ⟨(migrate array hash).1, (migrate array hash).2, metatable⟩ := by
  fun_induction Table.migrate with
  | case1 array hash hnone =>
    refine ⟨h, fun key hkey => ?_⟩
    rw [nextKey?_eq_some.2 hkey] at hnone
    cases hnone
  | case2 array hash next hnext hmem ih =>
    refine ih (h.push (nextKey?_eq_some.1 hnext) ?_)
    exact (h.entries next _ (Std.HashMap.getElem?_eq_some_getElem hmem)).1
  | case3 array hash next hnext hmem =>
    refine ⟨h, fun key hkey => ?_⟩
    obtain rfl : next = key := Option.some.inj (hnext.symm.trans (nextKey?_eq_some.2 hkey))
    exact hmem

/-! ## Writes -/

/-- Dropping nils from the end of the array part changes no value. -/
theorem lookup_trim {t : Table} (key : Val)
    (h : ∀ key i, IsIndex key i → i < t.array.size → key ∉ t.hash) :
    lookup ⟨trim t.array, t.hash, t.metatable⟩ key = t.lookup key := by
  by_cases hin : ∃ i, IsIndex key i ∧ i < t.array.size
  · obtain ⟨i, hi, hlt⟩ := hin
    rw [lookup_index hi hlt, ← getD_trim]
    rcases Nat.lt_or_ge i (trim t.array).size with hkept | hdropped
    · exact lookup_index hi hkept
    · rw [lookup_other (t := ⟨trim t.array, _, _⟩) fun j hj => hi.unique hj ▸ hdropped,
        Array.getD_eq_getD_getElem?, Array.getElem?_eq_none hdropped]
      exact Std.HashMap.getD_eq_fallback (h key i hi hlt)
  · have hout : ∀ i, IsIndex key i → t.array.size ≤ i := fun i hi =>
      Nat.not_lt.1 fun hlt => hin ⟨i, hi, hlt⟩
    rw [lookup_other hout, lookup_other (t := ⟨trim t.array, _, _⟩) fun i hi =>
      Nat.le_trans (size_trim_le _) (hout i hi)]

/-- A value that is written over one of the array part is found there. -/
theorem lookup_overwrite {t : Table} {key : Val} {i : Nat} (hkey : IsIndex key i)
    (hi : i < t.array.size) (v k : Val) :
    lookup ⟨t.array.setIfInBounds i v, t.hash, t.metatable⟩ k =
      if k = key then v else t.lookup k := by
  by_cases hin : ∃ j, IsIndex k j ∧ j < t.array.size
  · obtain ⟨j, hj, hlt⟩ := hin
    rw [lookup_index hj hlt, lookup_index (t := ⟨t.array.setIfInBounds i v, _, _⟩) hj (by simpa)]
    by_cases hij : i = j
    · subst hij
      rw [if_pos (hj.eq_ofNat.2.trans hkey.eq_ofNat.2.symm)]
      simp [hi]
    · rw [if_neg fun hk : k = key => hij (hkey.unique (hk ▸ hj))]
      simp [hij]
  · have hout : ∀ j, IsIndex k j → t.array.size ≤ j := fun j hj =>
      Nat.not_lt.1 fun hlt => hin ⟨j, hj, hlt⟩
    rw [lookup_other hout, lookup_other (t := ⟨t.array.setIfInBounds i v, _, _⟩) (by simpa),
      if_neg fun hk : k = key => hin ⟨i, hk ▸ hkey, hi⟩]

/-! The ways in which a write goes. -/

section Ways

variable {t : Table} {key v : Val}

theorem insert_last {i : Nat} (h : arrayIndex? key t.array.size = some i)
    (hlast : i + 1 = t.array.size) :
    t.insert key v = ⟨trim (t.array.setIfInBounds i v), t.hash, t.metatable⟩ := by
  simp [insert, h, hlast]

theorem insert_inner {i : Nat} (h : arrayIndex? key t.array.size = some i)
    (hinner : i + 1 ≠ t.array.size) :
    t.insert key v = ⟨t.array.setIfInBounds i v, t.hash, t.metatable⟩ := by
  simp [insert, h, hinner]

theorem insert_nil (h : arrayIndex? key t.array.size = none) :
    t.insert key .nil = ⟨t.array, t.hash.erase key, t.metatable⟩ := by
  simp [insert, h, Val.isNil]

theorem isNil_eq_false (hv : v ≠ .nil) : v.isNil = false := by
  cases v <;> first | rfl | exact (hv rfl).elim

theorem insert_next (h : IsIndex key t.array.size) (hv : v ≠ .nil) :
    t.insert key v = ⟨(migrate (t.array.push v) (t.hash.erase key)).1,
      (migrate (t.array.push v) (t.hash.erase key)).2, t.metatable⟩ := by
  have hout := arrayIndex?_eq_none.2 fun i hi => Nat.le_of_eq (h.unique hi)
  simp [insert, hout, isNil_eq_false hv, nextKey?_eq_some.2 h]

theorem insert_other (h : arrayIndex? key t.array.size = none) (hv : v ≠ .nil)
    (hnext : ¬ IsIndex key t.array.size) :
    t.insert key v = ⟨t.array, t.hash.insert key v, t.metatable⟩ := by
  simp [insert, h, isNil_eq_false hv, nextKey?_eq_some, hnext]

end Ways

namespace Sound

variable {t : Table} {key : Val}

/-- **A write is seen at its key only.** -/
theorem lookup_insert (h : t.Sound) (key v k : Val) :
    (t.insert key v).lookup k = if k = key then v else t.lookup k := by
  cases hindex : arrayIndex? key t.array.size with
  | some i =>
    obtain ⟨hkey, hi⟩ := arrayIndex?_eq_some.1 hindex
    have hwritten := lookup_overwrite hkey hi v k
    by_cases hlast : i + 1 = t.array.size
    · rw [insert_last hindex hlast, ← hwritten]
      exact lookup_trim (t := ⟨t.array.setIfInBounds i v, t.hash, t.metatable⟩) k
        fun key i hi hlt => h.apart key i hi (by simpa using hlt)
    · rw [insert_inner hindex hlast, hwritten]
  | none =>
    -- a key outside of the array part is looked up in the hash part
    have hhash : ∀ hash : Std.HashMap Val Val,
        (∀ k, hash.getD k .nil = if k = key then v else t.hash.getD k .nil) →
        lookup ⟨t.array, hash, t.metatable⟩ k = if k = key then v else t.lookup k := by
      intro hash hget
      unfold lookup
      dsimp only
      by_cases hk : k = key
      · rw [hk, hindex, if_pos rfl]
        exact (hget key).trans (if_pos rfl)
      · rw [if_neg hk, hget, if_neg hk]
    by_cases hv : v = .nil
    · subst hv
      rw [insert_nil hindex]
      refine hhash _ fun k => ?_
      rw [Std.HashMap.getD_erase]
      exact ite_congr (propext (beq_iff_eq.trans eq_comm)) (fun _ => rfl) fun _ => rfl
    · by_cases hnext : IsIndex key t.array.size
      · rw [insert_next hnext hv, lookup_migrate, lookup_push hnext]
      · rw [insert_other hindex hv hnext]
        refine hhash _ fun k => ?_
        rw [Std.HashMap.getD_insert]
        exact ite_congr (propext (beq_iff_eq.trans eq_comm)) (fun _ => rfl) fun _ => rfl

/-- A value in the array part is written over. -/
theorem overwrite (h : t.Sound) (v : Val) {i : Nat} (hi : i + 1 ≠ t.array.size) :
    Sound ⟨t.array.setIfInBounds i v, t.hash, t.metatable⟩ where
  bounded := by simpa using h.bounded
  last j hj := by
    have hsize : t.array.size = j + 1 := by simpa using hj
    have hlast := h.last j hsize
    have hne : i ≠ j := fun hij => hi (hij ▸ hsize.symm)
    simpa [Array.getElem?_setIfInBounds, hne] using hlast
  entries := h.entries
  apart := by simpa using h.apart
  next := by simpa using h.next

/-- The last value of the array part is written over. -/
theorem overwriteLast (h : t.Sound) (v : Val) {i : Nat} :
    Sound ⟨trim (t.array.setIfInBounds i v), t.hash, t.metatable⟩ := by
  have hle : (trim (t.array.setIfInBounds i v)).size ≤ t.array.size := by
    simpa using size_trim_le (t.array.setIfInBounds i v)
  refine ⟨⟨Nat.lt_of_le_of_lt hle h.bounded, fun j => trim_last _, h.entries,
    fun key j hj hlt => h.apart key j hj (Nat.lt_of_lt_of_le hlt hle)⟩, fun key hkey hmem => ?_⟩
  rcases Nat.lt_or_eq_of_le hle with hlt | heq
  · exact h.apart key _ hkey hlt hmem
  · exact h.next key (heq ▸ hkey) hmem

/-- An entry leaves the hash part. -/
theorem erase (h : t.Sound) (key : Val) : Sound ⟨t.array, t.hash.erase key, t.metatable⟩ where
  bounded := h.bounded
  last := h.last
  entries _ _ := entries_erase h.toOrderly
  apart k i hi hlt hmem := h.apart k i hi hlt (Std.HashMap.mem_of_mem_erase hmem)
  next k hk hmem := h.next k hk (Std.HashMap.mem_of_mem_erase hmem)

/-- An entry joins the hash part. -/
theorem insertHash (h : t.Sound) {v : Val} (hkey : key.toKey = .ok key) (hv : v ≠ .nil)
    (hout : ∀ i, IsIndex key i → t.array.size < i) :
    Sound ⟨t.array, t.hash.insert key v, t.metatable⟩ := by
  have hmem : ∀ k i, IsIndex k i → i ≤ t.array.size → k ∈ t.hash.insert key v → k ∈ t.hash := by
    intro k i hi hle hk
    refine (Std.HashMap.mem_insert.1 hk).resolve_left fun heq => ?_
    obtain rfl : key = k := by simpa using heq
    exact absurd (hout i hi) (Nat.not_lt.2 hle)
  refine ⟨⟨h.bounded, h.last, fun k w hw => ?_, fun k i hi hlt hk => ?_⟩, fun k hi hk => ?_⟩
  · rw [Std.HashMap.getElem?_insert] at hw
    split at hw
    · rename_i heq
      obtain rfl : key = k := by simpa using heq
      cases hw
      exact ⟨hv, hkey⟩
    · exact h.entries k w hw
  · exact h.apart k i hi hlt (hmem k i hi (Nat.le_of_lt hlt) hk)
  · exact h.next k hi (hmem k _ hi (Nat.le_refl _) hk)

/-- **Writes keep tables sound.** -/
theorem insert (h : t.Sound) (hkey : key.toKey = .ok key) (v : Val) : (t.insert key v).Sound := by
  cases hindex : arrayIndex? key t.array.size with
  | some i =>
    by_cases hlast : i + 1 = t.array.size
    · rw [insert_last hindex hlast]
      exact h.overwriteLast v
    · rw [insert_inner hindex hlast]
      exact h.overwrite v hlast
  | none =>
    by_cases hv : v = .nil
    · subst hv
      rw [insert_nil hindex]
      exact h.erase key
    · by_cases hnext : IsIndex key t.array.size
      · rw [insert_next hnext hv]
        exact (h.toOrderly.push hnext hv).migrate
      · rw [insert_other hindex hv hnext]
        refine h.insertHash hkey hv fun i hi => Nat.lt_of_le_of_ne ?_ fun heq => hnext (heq ▸ hi)
        exact arrayIndex?_eq_none.1 hindex i hi

/-- The length is a border: the last index holds a value. -/
theorem lookup_len (h : t.Sound) {i : Nat} (hlen : t.len = i + 1) :
    t.lookup (.ofNat t.len) ≠ .nil := by
  have hlt : i + 1 < twoPow 63 := hlen ▸ h.bounded
  rw [hlen, lookup_index (isIndex_ofNat hlt) (by rw [← len, hlen]; omega)]
  exact h.last i hlen

/-- The length is a border: there is no value behind. -/
theorem lookup_behind (h : t.Sound) (hkey : IsIndex key t.len) : t.lookup key = .nil := by
  rw [lookup_other fun i hi => Nat.le_of_eq (hkey.unique hi)]
  exact Std.HashMap.getD_eq_fallback (h.next key hkey)

theorem isEmpty_iff (h : t.Sound) : t.isEmpty ↔ ∀ key, t.get key = .nil := by
  have hempty : t.isEmpty ↔ t.array.size = 0 ∧ t.hash.isEmpty := by
    simp [isEmpty]
  rw [hempty]
  constructor
  · rintro ⟨hsize, hhash⟩ key
    unfold get
    split
    · rw [lookup_other fun i _ => hsize ▸ Nat.zero_le i, Std.HashMap.getD_of_isEmpty hhash]
    · rfl
  · intro hnil
    refine ⟨Nat.eq_zero_of_not_pos fun hpos => ?_, ?_⟩
    · obtain ⟨i, hi⟩ := Nat.exists_eq_succ_of_ne_zero (Nat.pos_iff_ne_zero.1 hpos)
      exact h.lookup_len hi (hnil (.ofNat t.len))
    · rw [Std.HashMap.isEmpty_iff_forall_not_mem]
      intro key hmem
      obtain ⟨hv, hkey⟩ := h.entries key _ (Std.HashMap.getElem?_eq_some_getElem hmem)
      have hget := hnil key
      unfold get at hget
      rw [hkey] at hget
      dsimp only at hget
      by_cases hin : ∃ i, IsIndex key i ∧ i < t.array.size
      · exact hin.elim fun i hi => h.apart key i hi.1 hi.2 hmem
      · rw [lookup_other fun i hi => Nat.not_lt.1 fun hlt => hin ⟨i, hi, hlt⟩] at hget
        exact hv (Std.HashMap.getElem_eq_getD.trans hget)

theorem ofMetatable (h : t.Sound) (meta? : Option TableId) :
    Sound ⟨t.array, t.hash, meta?⟩ := { h with }

end Sound

/-! ## Edits -/

/-- What is done to the entries of a table. -/
inductive Edit
  | set (key value : Val)
  /-- Writes values at consecutive indices. -/
  | setList (first : Int) (values : List Val)

/-- The keys and values that an edit writes, in order. -/
def Edit.writes : Edit → List (Val × Val)
  | .set key value => [(key, value)]
  | .setList first values => values.mapIdx fun i v => (.int (Int64.ofInt (first + i)), v)

theorem Edit.writes_cons (first : Int) (v : Val) (values : List Val) :
    (Edit.setList first (v :: values)).writes =
      (.int (Int64.ofInt first), v) :: (Edit.setList (first + 1) values).writes := by
  have hshift : ∀ i : Nat, first + ((i + 1 : Nat) : Int) = first + 1 + (i : Int) := fun i => by
    omega
  simp only [writes, List.mapIdx_cons, hshift, Int.natCast_zero, Int.add_zero]

/-- A table after an edit, or why there is none. -/
def edit (t : Table) : Edit → Except InvalidKey Table
  | .set key value => t.set key value
  | .setList first values => .ok (t.setList first values)

/-- A table after writes; one that fails leaves it as it is. -/
def written (t : Table) (writes : List (Val × Val)) : Table :=
  writes.foldl (fun t w => (t.set w.1 w.2).toOption.getD t) t

/-- The value that was last written at a key with the normal form `k`. -/
def lastWritten? (writes : List (Val × Val)) (k : Val) : Option Val :=
  (writes.findRev? fun w => w.1.toKey.toOption = some k).map Prod.snd

theorem set_eq (t : Table) (key value : Val) :
    (t.set key value).toOption.getD t =
      match key.toKey with
      | .ok k => t.insert k value
      | .error _ => t := by
  unfold set
  cases key.toKey <;> rfl

theorem setList_eq (t : Table) (first : Int) (values : List Val) :
    t.setList first values = t.written (Edit.setList first values).writes := by
  induction values generalizing t first with
  | nil => rfl
  | cons v values ih => rw [setList, ih, Edit.writes_cons]; rfl

theorem edit_eq (t : Table) (e : Edit) : (t.edit e).toOption.getD t = t.written e.writes := by
  cases e with
  | set key value => rfl
  | setList first values => exact t.setList_eq first values

theorem lastWritten?_append (earlier later : List (Val × Val)) (k : Val) :
    lastWritten? (earlier ++ later) k = (lastWritten? later k).or (lastWritten? earlier k) := by
  unfold lastWritten?
  rw [List.findRev?_eq_find?_reverse, List.findRev?_eq_find?_reverse,
    List.findRev?_eq_find?_reverse, List.reverse_append, List.find?_append]
  cases List.find? _ later.reverse <;> rfl

/-- Writes keep a table sound, and the last one at a key is seen there. -/
theorem Sound.written {t : Table} (h : t.Sound) (writes : List (Val × Val)) :
    (t.written writes).Sound ∧
      ∀ k, (t.written writes).lookup k = (lastWritten? writes k).getD (t.lookup k) := by
  induction writes generalizing t with
  | nil => exact ⟨h, fun _ => rfl⟩
  | cons w writes ih =>
    have hnext : ((t.set w.1 w.2).toOption.getD t).Sound ∧
        ∀ k, ((t.set w.1 w.2).toOption.getD t).lookup k =
          if w.1.toKey.toOption = some k then w.2 else t.lookup k := by
      rw [set_eq]
      cases hkey : w.1.toKey with
      | ok k' =>
        refine ⟨h.insert (Val.toKey_toKey hkey) w.2, fun k => (h.lookup_insert k' w.2 k).trans ?_⟩
        simp only [Except.toOption, Option.some.injEq, eq_comm]
      | error e => exact ⟨h, fun k => by simp [Except.toOption]⟩
    obtain ⟨hsound, hlookup⟩ := ih hnext.1
    refine ⟨hsound, fun k => (hlookup k).trans ?_⟩
    rw [hnext.2]
    unfold lastWritten?
    rw [List.findRev?]
    cases writes.findRev? fun w => w.1.toKey.toOption = some k with
    | some w' => rfl
    | none => by_cases hw : w.1.toKey.toOption = some k <;> simp [hw]

/-! ## Maps -/

/-- A table holds at each key what a map has at the normal form of the key. -/
def Represents (t : Table) (f : Val → Val) : Prop :=
  ∀ key, t.get key = match key.toKey with
    | .ok k => f k
    | .error _ => .nil

theorem Represents.lookup {t : Table} {f : Val → Val} (h : t.Represents f) {key k : Val}
    (hkey : key.toKey = .ok k) : t.lookup k = f k := by
  have hget := h key
  unfold get at hget
  rw [hkey] at hget
  exact hget

theorem represents_of_lookup {t : Table} {f : Val → Val}
    (h : ∀ key k : Val, key.toKey = .ok k → t.lookup k = f k) : t.Represents f := by
  intro key
  unfold get
  cases hkey : key.toKey with
  | ok k => exact h key k hkey
  | error _ => rfl

theorem represents_empty : empty.Represents fun _ => .nil := by
  intro key
  rw [sound_empty.isEmpty_iff.1 rfl key]
  cases key.toKey <;> rfl

/-- **A write changes the map at its key only.** -/
theorem Sound.represents_insert {t : Table} {f : Val → Val} (h : t.Sound) (hf : t.Represents f)
    (key v : Val) : (t.insert key v).Represents fun k => if k = key then v else f k :=
  represents_of_lookup fun _ k hk => by rw [h.lookup_insert, hf.lookup hk]

/-- After writes the map has what was last written at a key. -/
theorem Sound.represents_written {t : Table} {f : Val → Val} (h : t.Sound) (hf : t.Represents f)
    (writes : List (Val × Val)) :
    (t.written writes).Represents fun k => (lastWritten? writes k).getD (f k) :=
  represents_of_lookup fun _ k hk => by rw [(h.written writes).2, hf.lookup hk]

/-! ## How a table evolves -/

/-- A later state of a table: values were written to it, and it may have another metatable. -/
inductive Becomes (t : Table) : Table → Prop
  | refl : Becomes t t
  | insert {u : Table} {key : Val} (h : Becomes t u) (hkey : key.toKey = .ok key) (v : Val) :
    Becomes t (u.insert key v)
  | setMetatable {u : Table} (h : Becomes t u) (meta? : Option TableId) :
    Becomes t ⟨u.array, u.hash, meta?⟩

theorem Becomes.trans {t u w : Table} (h : t.Becomes u) (k : u.Becomes w) : t.Becomes w := by
  induction k with
  | refl => exact h
  | insert _ hkey v ih => exact ih.insert hkey v
  | setMetatable _ meta? ih => exact ih.setMetatable meta?

theorem Becomes.setList {t u : Table} (h : t.Becomes u) (first : Int) (values : List Val) :
    t.Becomes (u.setList first values) := by
  induction values generalizing u first with
  | nil => exact h
  | cons v values ih => exact ih (h.insert rfl v) (first + 1)

theorem Becomes.sound {t u : Table} (h : t.Becomes u) (ht : t.Sound) : u.Sound := by
  induction h with
  | refl => exact ht
  | insert _ hkey v ih => exact ih.insert hkey v
  | setMetatable _ meta? ih => exact ih.ofMetatable meta?

end Table

end ScriptCore
