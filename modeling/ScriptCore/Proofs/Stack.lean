import ScriptCore.Stack

/-!
# What the stack holds after an operation

The stack is read as an unbounded row of slots, nil from some point on. Each operation of a
window is described by the slots it leaves, so its growth is not visible. No operation shrinks
the stack, and a window changes no slot below its base (`Stack.KeptBelow`).
-/

namespace ScriptCore

namespace Stack

/-! ## The row of slots -/

theorem capacity_le_growTo (s : Stack) (n : Nat) : s.capacity ≤ (s.growTo n).capacity := by
  unfold growTo
  split
  · exact Nat.le_refl _
  · simp only [capacity, Array.size_append]; omega

theorem le_capacity_growTo (s : Stack) (n : Nat) : n ≤ (s.growTo n).capacity := by
  unfold growTo
  split
  · assumption
  · simp only [capacity, Array.size_append, Array.size_replicate] at *; omega

/-- Growth adds nils behind the end, where nil is read anyway. -/
@[simp] theorem slot_growTo (s : Stack) (n i : Nat) : (s.growTo n).slot i = s.slot i := by
  unfold growTo
  split
  · rfl
  · by_cases h : i < s.slots.size
    · simp [slot, Array.getElem?_append_left h]
    · simp only [slot, Array.getD_eq_getD_getElem?]
      rw [Array.getElem?_append_right (by omega), Array.getElem?_replicate]
      split <;> simp [Array.getElem?_eq_none (Nat.not_lt.mp h)]

theorem slot_put (s : Stack) (i j : Nat) (x : Slot) :
    (s.put i x).slot j = if j = i then x else s.slot j := by
  have hi : i < (s.growTo (i + 1)).slots.size := le_capacity_growTo s (i + 1)
  rw [← slot_growTo s (i + 1) j]
  simp only [put, slot, Array.getD_eq_getD_getElem?]
  by_cases h : j = i
  · subst h
    simp [Array.getElem?_setIfInBounds_self_of_lt hi]
  · simp [h, Array.getElem?_setIfInBounds_ne (Ne.symm h)]

@[simp] theorem size_wipe (slots : Array Slot) (start n : Nat) :
    (wipe slots start n).size = slots.size := by
  induction n generalizing slots start with
  | zero => rfl
  | succ n ih => simp [wipe, ih]

@[simp] theorem size_fill (slots : Array Slot) (start : Nat) (xs : List Slot) :
    (fill slots start xs).size = slots.size := by
  induction xs generalizing slots start with
  | nil => rfl
  | cons x xs ih => simp [fill, ih]

@[simp] theorem size_shiftUp (slots : Array Slot) (start n : Nat) :
    (shiftUp slots start n).size = slots.size := by
  induction n generalizing slots with
  | zero => rfl
  | succ n ih => simp [shiftUp, ih]

theorem slot_wipe (slots : Array Slot) (start n j : Nat) :
    slot ⟨wipe slots start n⟩ j =
      if start ≤ j ∧ j < start + n then Slot.nil else slot ⟨slots⟩ j := by
  induction n generalizing slots start with
  | zero => rw [wipe, if_neg (by omega)]
  | succ n ih =>
    rw [wipe, ih]
    by_cases h : j = start
    · subst h
      rw [if_neg (by omega), if_pos (by omega)]
      simp only [slot, Array.getD_eq_getD_getElem?, Array.getElem?_setIfInBounds_self]
      split <;> rfl
    · have hne : slot ⟨slots.setIfInBounds start Slot.nil⟩ j = slot ⟨slots⟩ j := by
        simp [slot, Array.getElem?_setIfInBounds_ne (Ne.symm h)]
      rw [hne]
      congr 1
      exact propext (by omega)

theorem slot_fill (slots : Array Slot) (start j : Nat) (xs : List Slot)
    (hin : start + xs.length ≤ slots.size) :
    slot ⟨fill slots start xs⟩ j =
      if start ≤ j ∧ j < start + xs.length then xs.getD (j - start) Slot.nil
      else slot ⟨slots⟩ j := by
  induction xs generalizing slots start with
  | nil => rw [fill, List.length_nil, if_neg (by omega)]
  | cons x xs ih =>
    simp only [List.length_cons] at hin
    rw [fill, ih _ _ (by simp; omega), List.length_cons]
    by_cases h : j = start
    · subst h
      rw [if_neg (by omega), if_pos (by omega), Nat.sub_self, List.getD_cons_zero]
      simp [slot, Array.getElem?_setIfInBounds_self_of_lt (show j < slots.size by omega)]
    · have hne : slot ⟨slots.setIfInBounds start x⟩ j = slot ⟨slots⟩ j := by
        simp [slot, Array.getElem?_setIfInBounds_ne (Ne.symm h)]
      rw [hne]
      by_cases hj : start + 1 ≤ j ∧ j < start + 1 + xs.length
      · rw [if_pos hj, if_pos (by omega), show j - start = (j - (start + 1)) + 1 by omega,
          List.getD_cons_succ]
      · rw [if_neg hj, if_neg (by omega)]

theorem slot_shiftUp (slots : Array Slot) (start n j : Nat) (hin : start + n < slots.size) :
    slot ⟨shiftUp slots start n⟩ j =
      if start < j ∧ j ≤ start + n then slot ⟨slots⟩ (j - 1) else slot ⟨slots⟩ j := by
  induction n generalizing slots with
  | zero => rw [if_neg (by omega), shiftUp]
  | succ n ih =>
    -- the moved slot lies above all slots that are still to be moved
    have hmove : ∀ i, slot ⟨slots.setIfInBounds (start + n + 1) (slots.getD (start + n) Slot.nil)⟩ i
        = if i = start + n + 1 then slot ⟨slots⟩ (start + n) else slot ⟨slots⟩ i := by
      intro i
      by_cases h : i = start + n + 1
      · subst h
        rw [if_pos rfl]
        simp [slot, Array.getElem?_setIfInBounds_self_of_lt
          (show start + n + 1 < slots.size by omega)]
      · rw [if_neg h]
        simp [slot, Array.getElem?_setIfInBounds_ne (Ne.symm h)]
    rw [shiftUp, ih _ (by simp; omega), hmove, hmove]
    by_cases h : j = start + n + 1
    · subst h
      rw [if_neg (by omega), if_pos rfl, if_pos (by omega)]
      rfl
    · by_cases hj : start < j ∧ j ≤ start + n
      · rw [if_pos hj, if_neg (by omega), if_pos (by omega)]
      · rw [if_neg hj, if_neg h, if_neg (by omega)]

/-! ## What is kept below a base -/

/-- The slots below `base` are as they were, and no slot was given up. -/
structure KeptBelow (base : Nat) (s t : Stack) : Prop where
  slot : ∀ i < base, t.slot i = s.slot i
  capacity : s.capacity ≤ t.capacity

namespace KeptBelow

theorem refl (base : Nat) (s : Stack) : KeptBelow base s s := ⟨fun _ _ => rfl, Nat.le_refl _⟩

theorem trans {base : Nat} {s t u : Stack} (h : KeptBelow base s t) (k : KeptBelow base t u) :
    KeptBelow base s u :=
  ⟨fun i hi => (k.slot i hi).trans (h.slot i hi), Nat.le_trans h.capacity k.capacity⟩

theorem mono {base base' : Nat} {s t : Stack} (hb : base ≤ base') (h : KeptBelow base' s t) :
    KeptBelow base s t := ⟨fun i hi => h.slot i (by omega), h.capacity⟩

end KeptBelow

/-! ## What two stacks keep in common -/

/-- Equal slots at one offset from the bases `l` and `r` remain equal when each stack changes. -/
def Even (l r : Nat) (s s' t t' : Stack) : Prop :=
  ∀ i, s.slot (l + i) = t.slot (r + i) → s'.slot (l + i) = t'.slot (r + i)

end Stack

namespace View

open Stack

variable (v : View) (s : Stack)

/-! ## Windows -/

@[simp] theorem child_base (n : Nat) : (v.child n).base = v.base + n := rfl

@[simp] theorem child_top (n : Nat) : (v.child n).top = v.top - n := rfl

theorem child_slot (n i : Nat) : (v.child n).slot s i = v.slot s (n + i) := by
  simp only [slot, child_base, Nat.add_assoc]

/-- The slot at a place of the row after an operation of a window that starts further down. -/
theorem slot_eq (i : Nat) : v.slot s i = s.slot (v.base + i) := rfl

theorem slot_growTo (n i : Nat) : (v.growTo s n).slot i = s.slot i := Stack.slot_growTo ..

theorem keptBelow_growTo (n : Nat) : KeptBelow v.base s (v.growTo s n) :=
  ⟨fun i _ => v.slot_growTo s n i, capacity_le_growTo _ _⟩

theorem keptBelow_put (i : Nat) (x : Slot) : KeptBelow v.base s (v.put s i x) := by
  refine ⟨fun j hj => ?_, ?_⟩
  · rw [put, slot_put, if_neg (by omega)]
  · simp only [put, Stack.put, capacity, Array.size_setIfInBounds]
    exact capacity_le_growTo _ _

@[simp] theorem setTop_fst (n : Nat) : (v.setTop s n).1 = ⟨v.base, n⟩ := rfl

@[simp] theorem setTop_snd (n : Nat) : (v.setTop s n).2 = v.growTo s n := rfl

@[simp] theorem fit_fst (n : Nat) : (v.fit s n).1 = ⟨v.base, n⟩ := by
  unfold fit; split <;> rfl

theorem slot_fit (n i : Nat) :
    (v.fit s n).2.slot i =
      if v.base + v.top ≤ i ∧ i < v.base + n then Slot.nil else s.slot i := by
  unfold fit
  split
  · rename_i h
    rw [← v.slot_growTo s n i, show v.base + n = v.base + v.top + (n - v.top) by omega]
    exact slot_wipe _ _ _ _
  · rw [if_neg (by omega)]

theorem keptBelow_fit (n : Nat) : KeptBelow v.base s (v.fit s n).2 := by
  refine ⟨fun i hi => by rw [slot_fit, if_neg (by omega)], ?_⟩
  unfold fit
  split
  · simp only [capacity, size_wipe]
    exact capacity_le_growTo _ _
  · exact Nat.le_refl _

theorem slot_clearRange (first last i : Nat) :
    (v.clearRange s first last).slot i =
      if v.base + first ≤ i ∧ i < v.base + last then Slot.nil else s.slot i := by
  unfold clearRange
  split
  · rw [if_neg (by omega)]
  · rw [← v.slot_growTo s last i, show v.base + last = v.base + first + (last - first) by omega]
    exact slot_wipe _ _ _ _

theorem keptBelow_clearRange (first last : Nat) :
    KeptBelow v.base s (v.clearRange s first last) := by
  refine ⟨fun i hi => by rw [slot_clearRange, if_neg (by omega)], ?_⟩
  unfold clearRange
  split
  · exact Nat.le_refl _
  · simp only [capacity, size_wipe]
    exact capacity_le_growTo _ _

theorem slot_restore (saved : List Slot) (i : Nat) :
    (v.restore s saved).slot i =
      if v.base ≤ i ∧ i < v.base + saved.length then saved.getD (i - v.base) Slot.nil
      else s.slot i := by
  rw [← v.slot_growTo s saved.length i]
  exact slot_fill _ _ _ _ (le_capacity_growTo _ _)

theorem keptBelow_restore (saved : List Slot) : KeptBelow v.base s (v.restore s saved) := by
  refine ⟨fun i hi => by rw [slot_restore, if_neg (by omega)], ?_⟩
  simp only [restore, capacity, size_fill]
  exact capacity_le_growTo _ _

@[simp] theorem load_fst (values : List Val) : (v.load s values).1 = ⟨v.base, values.length⟩ := rfl

theorem load_snd (values : List Val) :
    (v.load s values).2 = v.restore s (values.map .value) := by
  simp [load, restore]

theorem keptBelow_load (values : List Val) : KeptBelow v.base s (v.load s values).2 := by
  rw [load_snd]; exact keptBelow_restore v s _

/-- A loaded window holds the values. -/
theorem slot_load (values : List Val) (i : Nat) (hi : i < values.length) :
    (v.load s values).1.slot (v.load s values).2 i = .value (values.getD i .nil) := by
  rw [load_snd, load_fst, slot_eq, slot_restore, if_pos (by simp; omega)]
  simp [hi]

@[simp] theorem insertFront_fst (x : Val) : (v.insertFront s x).1 = ⟨v.base, v.top + 1⟩ := rfl

theorem slot_insertFront (x : Val) (i : Nat) :
    (v.insertFront s x).2.slot i =
      if i = v.base then .value x
      else if v.base < i ∧ i ≤ v.base + v.top then s.slot (i - 1) else s.slot i := by
  have hsize : v.base + (v.top + 1) ≤ (v.growTo s (v.top + 1)).slots.size :=
    le_capacity_growTo _ _
  rw [← v.slot_growTo s (v.top + 1) i, ← v.slot_growTo s (v.top + 1) (i - 1)]
  have hshift := slot_shiftUp (v.growTo s (v.top + 1)).slots v.base v.top i (by omega)
  by_cases h : i = v.base
  · subst h
    rw [if_pos rfl]
    simp only [insertFront, Stack.slot, Array.getD_eq_getD_getElem?]
    rw [Array.getElem?_setIfInBounds_self_of_lt (by rw [size_shiftUp]; omega)]
    rfl
  · rw [if_neg h]
    simp only [insertFront, Stack.slot, Array.getD_eq_getD_getElem?] at hshift ⊢
    rw [Array.getElem?_setIfInBounds_ne (Ne.symm h)]
    exact hshift

theorem keptBelow_insertFront (x : Val) : KeptBelow v.base s (v.insertFront s x).2 := by
  refine ⟨fun i hi => by rw [slot_insertFront, if_neg (by omega), if_neg (by omega)], ?_⟩
  simp only [insertFront, capacity, Array.size_setIfInBounds, size_shiftUp]
  exact capacity_le_growTo _ _

/-! ## The same change at two places -/

section Even

variable {l r : Nat} {s t : Stack}

theorem even_growTo (v w : View) (n m : Nat) :
    Even l r s (v.growTo s n) t (w.growTo t m) := fun i hi => by
  rw [slot_growTo, slot_growTo]
  exact hi

theorem even_put (n m j : Nat) (x : Slot) :
    Even l r s ((⟨l, n⟩ : View).put s j x) t ((⟨r, m⟩ : View).put t j x) := fun i hi => by
  simp only [put, slot_put, Nat.add_left_cancel_iff]
  split
  · rfl
  · exact hi

theorem even_restore (n m j : Nat) (saved : List Slot) :
    Even l r s ((⟨l + j, n⟩ : View).restore s saved) t ((⟨r + j, m⟩ : View).restore t saved) :=
  fun i hi => by
    rw [slot_restore, slot_restore]
    by_cases h : j ≤ i ∧ i < j + saved.length
    · rw [if_pos (by dsimp only; omega), if_pos (by dsimp only; omega)]
      congr 1
      dsimp only; omega
    · rw [if_neg (by dsimp only; omega), if_neg (by dsimp only; omega)]
      exact hi

theorem even_load (n m j : Nat) (values : List Val) :
    Even l r s ((⟨l + j, n⟩ : View).load s values).2 t ((⟨r + j, m⟩ : View).load t values).2 := by
  rw [load_snd, load_snd]
  exact even_restore n m j _

/-- Loading values puts no cells anywhere. -/
theorem bare_load (n j : Nat) (values : List Val) (i : Nat) (h : ∃ v, s.slot (l + i) = .value v) :
    ∃ v, ((⟨l + j, n⟩ : View).load s values).2.slot (l + i) = .value v := by
  by_cases hi : j ≤ i ∧ i < j + values.length
  · obtain ⟨k, rfl⟩ := Nat.exists_eq_add_of_le hi.1
    have hloaded := slot_load ⟨l + j, n⟩ s values k (by omega)
    rw [slot_eq, load_fst, Nat.add_assoc] at hloaded
    exact ⟨_, hloaded⟩
  · rw [load_snd, slot_restore, if_neg (by simp only [List.length_map]; omega)]
    exact h

theorem even_fit (n k : Nat) :
    Even l r s ((⟨l, n⟩ : View).fit s k).2 t ((⟨r, n⟩ : View).fit t k).2 := fun i hi => by
  rw [slot_fit, slot_fit]
  dsimp only
  by_cases h : n ≤ i ∧ i < k
  · rw [if_pos (by omega), if_pos (by omega)]
  · rw [if_neg (by omega), if_neg (by omega)]
    exact hi

theorem even_clearRange (n m first last : Nat) :
    Even l r s ((⟨l, n⟩ : View).clearRange s first last) t
      ((⟨r, m⟩ : View).clearRange t first last) := fun i hi => by
  rw [slot_clearRange, slot_clearRange]
  dsimp only
  by_cases h : first ≤ i ∧ i < last
  · rw [if_pos (by omega), if_pos (by omega)]
  · rw [if_neg (by omega), if_neg (by omega)]
    exact hi

/-- The live slots move up, so they have to be equal. -/
theorem slot_insertFront_even {n : Nat} (x : Val)
    (h : ∀ i < n, s.slot (l + i) = t.slot (r + i)) (i : Nat)
    (hi : i ≤ n ∨ s.slot (l + i) = t.slot (r + i)) :
    ((⟨l, n⟩ : View).insertFront s x).2.slot (l + i) =
      ((⟨r, n⟩ : View).insertFront t x).2.slot (r + i) := by
  rw [slot_insertFront, slot_insertFront]
  dsimp only
  by_cases h0 : i = 0
  · subst h0
    rw [if_pos (by omega), if_pos (by omega)]
  · rw [if_neg (show ¬ l + i = l by omega), if_neg (show ¬ r + i = r by omega)]
    by_cases hn : i ≤ n
    · rw [if_pos (by omega), if_pos (by omega), show l + i - 1 = l + (i - 1) by omega,
        show r + i - 1 = r + (i - 1) by omega]
      exact h (i - 1) (by omega)
    · rw [if_neg (by omega), if_neg (by omega)]
      exact hi.resolve_left hn

end Even

/-! ## Reading -/

theorem length_snapshot (n : Nat) : (v.snapshot s n).length = n := by simp [snapshot]

theorem getD_snapshot {n i : Nat} (hi : i < n) :
    (v.snapshot s n).getD i Slot.nil = v.slot s i := by
  simp [snapshot, hi]

/-- A window that holds saved slots has them as its snapshot. -/
theorem snapshot_eq {saved : List Slot} {n : Nat} (hn : saved.length = n)
    (h : ∀ i < n, v.slot s i = saved.getD i Slot.nil) : v.snapshot s n = saved := by
  refine List.ext_getElem ((length_snapshot v s n).trans hn.symm) fun i hi hi' => ?_
  have hslot := h i (hn ▸ hi')
  rw [List.getD_eq_getElem?_getD, List.getElem?_eq_getElem hi'] at hslot
  simpa [snapshot] using hslot

/-- Equal slots give equal snapshots. -/
theorem snapshot_congr {w : View} {t : Stack} {n : Nat} (h : ∀ i < n, w.slot t i = v.slot s i) :
    w.snapshot t n = v.snapshot s n :=
  List.map_congr_left fun i hi => h i (List.mem_range.1 hi)

/-- Equal slots hold equal values. -/
theorem values_congr {w : View} {t : Stack} {cells : Array Val} {first last : Nat}
    (h : ∀ i, first ≤ i → i < last → w.slot t i = v.slot s i) :
    w.values t cells first last = v.values s cells first last := by
  refine List.map_congr_left fun i hi => ?_
  rw [List.mem_range'_1] at hi
  rw [get, get, h i hi.1 (by omega)]

end View

end ScriptCore
