import ScriptCore.Proofs.Cells

/-!
# Windows on an unbounded row

The stack is an array that grows. What can be seen of it through windows is a row of slots without
end (`Row`), in which all slots are nil at first: an access of a window (`View.Access`) answers, and
changes the row, as it would at the same places of such a row, whatever the capacity
(`act_refines`). The array behind has room for whatever is done to it: each access grows it before
it goes to an index or a slice of it, so the access passes all bounds checks
(`View.Access.checked`).

Windows nest (`View.Visit`). A nested window starts anywhere, also behind the end of the array, but
its live slots are always inside of it, whichever accesses have gone before
(`views_refine_row`).
-/

namespace ScriptCore

open Machine

variable {F S : Type}

/-! ## The row -/

/-- A row of slots without end, and the values of the cells. -/
structure Row where
  slot : Nat → Slot
  cells : Array Val

namespace Row

/-- A row of nils. -/
def blank (cells : Array Val) : Row := ⟨fun _ => Slot.nil, cells⟩

/-- The value at a place. -/
def get (r : Row) (i : Nat) : Val := (r.slot i).read r.cells

/-- The values of `n` places from `first` on. -/
def values (r : Row) (first n : Nat) : List Val := (List.range' first n).map r.get

def put (r : Row) (i : Nat) (x : Slot) : Row :=
  { r with slot := fun j => if j = i then x else r.slot j }

/-- The places `first … last - 1` become nil. -/
def clear (r : Row) (first last : Nat) : Row :=
  { r with slot := fun j => if first ≤ j ∧ j < last then Slot.nil else r.slot j }

/-- Slots are written from `base` on. -/
def write (r : Row) (base : Nat) (xs : List Slot) : Row :=
  { r with slot := fun j =>
      if base ≤ j ∧ j < base + xs.length then xs.getD (j - base) Slot.nil else r.slot j }

/-- The `n` slots from `base` on move up by one, over the one behind them. -/
def insert (r : Row) (base n : Nat) (x : Slot) : Row :=
  { r with slot := fun j =>
      if j = base then x else if base < j ∧ j ≤ base + n then r.slot (j - 1) else r.slot j }

def newCell (r : Row) (x : Val) : CellId × Row :=
  (⟨r.cells.size⟩, { r with cells := r.cells.push x })

def putCell (r : Row) (c : CellId) (x : Val) : Row :=
  { r with cells := r.cells.setIfInBounds c.index x }

end Row

/-- The row that the stack of a machine shows. -/
def Machine.row (m : Machine F S) : Row := ⟨m.thread.stack.slot, m.heap.cells⟩

/-! ## Accesses -/

namespace View

/-- An access of a window, or of a cell by another that holds it. -/
inductive Access
  | get (i : Nat)
  | slot (i : Nat)
  | cell (i : Nat)
  | values (first last : Nat)
  | valuesFrom (first : Nat)
  | snapshot (n : Nat)
  | top
  | set (i : Nat) (x : Val)
  | setSlot (i : Nat) (x : Slot)
  | store (i : Nat) (x : Val)
  | reify (i : Nat)
  | setTop (n : Nat)
  | fit (n : Nat)
  | clearRange (first last : Nat)
  | load (xs : List Val)
  | insertFront (x : Val)
  | restore (saved : List Slot)
  | growTo (n : Nat)
  | newCell (x : Val)
  | getCell (c : CellId)
  | putCell (c : CellId) (x : Val)

/-- What an access answers. -/
inductive Answer
  | done
  | value (x : Val)
  | slot (x : Slot)
  | cell (c? : Option CellId)
  | values (xs : List Val)
  | slots (xs : List Slot)
  | count (n : Nat)

namespace Access

/-- An access of a window on the stack of a machine, with the window as it is left. -/
def act (v : View) : Access → M F S (Answer × View)
  | .get i => do return (.value (← valueAt v i), v)
  | .slot i => do return (.slot (← slotAt v i), v)
  | .cell i => do return (.cell (← slotAt v i).cell?, v)
  | .values first last => do return (.values (← valuesOf v first last), v)
  | .valuesFrom first => do return (.values (← Machine.valuesFrom v first), v)
  | .snapshot n => do return (.slots (← Machine.snapshot v n), v)
  | .top => return (.count v.top, v)
  | .set i x => do
    putValue v i x
    return (.done, v)
  | .setSlot i x => do
    putSlot v i x
    return (.done, v)
  | .store i x => do
    Machine.store v i x
    return (.done, v)
  | .reify i => do return (.cell (some (← Machine.reify v i)), v)
  | .setTop n => do return (.done, ← Machine.setTop v n)
  | .fit n => do return (.done, ← Machine.fit v n)
  | .clearRange first last => do
    Machine.clearRange v first last
    return (.done, v)
  | .load xs => do return (.done, ← Machine.load v xs)
  | .insertFront x => do return (.done, ← Machine.insertFront v x)
  | .restore saved => do
    Machine.restore v saved
    return (.done, v)
  | .growTo n => do
    Machine.growTo v n
    return (.done, v)
  | .newCell x => do return (.cell (some (← Machine.newCell x)), v)
  | .getCell c => do return (.value (← cellAt c), v)
  | .putCell c x => do
    Machine.putCell c x
    return (.done, v)

/-- The access at the same places of a row. -/
def refer (v : View) (r : Row) : Access → Answer × View × Row
  | .get i => (.value (r.get (v.base + i)), v, r)
  | .slot i => (.slot (r.slot (v.base + i)), v, r)
  | .cell i => (.cell (r.slot (v.base + i)).cell?, v, r)
  | .values first last => (.values (r.values (v.base + first) (last - first)), v, r)
  | .valuesFrom first => (.values (r.values (v.base + first) (v.top - first)), v, r)
  | .snapshot n => (.slots ((List.range n).map fun i => r.slot (v.base + i)), v, r)
  | .top => (.count v.top, v, r)
  | .set i x => (.done, v, r.put (v.base + i) (.value x))
  | .setSlot i x => (.done, v, r.put (v.base + i) x)
  | .store i x =>
    match r.slot (v.base + i) with
    | .cell c => (.done, v, r.putCell c x)
    | .value _ => (.done, v, r.put (v.base + i) (.value x))
  | .reify i =>
    let (c, r) := r.newCell (r.get (v.base + i))
    (.cell (some c), v, r.put (v.base + i) (.cell c))
  | .setTop n => (.done, ⟨v.base, n⟩, r)
  | .fit n => (.done, ⟨v.base, n⟩, r.clear (v.base + v.top) (v.base + n))
  | .clearRange first last => (.done, v, r.clear (v.base + first) (v.base + last))
  | .load xs => (.done, ⟨v.base, xs.length⟩, r.write v.base (xs.map .value))
  | .insertFront x => (.done, ⟨v.base, v.top + 1⟩, r.insert v.base v.top (.value x))
  | .restore saved => (.done, v, r.write v.base saved)
  | .growTo _ => (.done, v, r)
  | .newCell x =>
    let (c, r) := r.newCell x
    (.cell (some c), v, r)
  | .getCell c => (.value (r.cells.getD c.index .nil), v, r)
  | .putCell c x => (.done, v, r.putCell c x)

end Access
end View

/-! ## Bounds -/

namespace Stack

/-- Replaces the slot at an index of the array. -/
def replace? (s : Stack) (i : Nat) (x : Slot) : Option Stack :=
  if i < s.capacity then some ⟨s.slots.setIfInBounds i x⟩ else none

/-- Changes the slice `first … last - 1` of the array. -/
def slice? (s : Stack) (first last : Nat) (f : Array Slot → Array Slot) : Option Stack :=
  if first ≤ last ∧ last ≤ s.capacity then some ⟨f s.slots⟩ else none

/-- Replaces slots from an index of the array on. -/
def replaceAll? (s : Stack) (start : Nat) : List Slot → Option Stack
  | [] => some s
  | x :: xs => do (← s.replace? start x).replaceAll? (start + 1) xs

theorem replaceAll?_eq (s : Stack) (start : Nat) (xs : List Slot)
    (h : start + xs.length ≤ s.capacity) :
    s.replaceAll? start xs = some ⟨fill s.slots start xs⟩ := by
  induction xs generalizing s start with
  | nil => rfl
  | cons x xs ih =>
    rw [List.length_cons] at h
    have hstart : s.replace? start x = some ⟨s.slots.setIfInBounds start x⟩ :=
      if_pos (by omega)
    rw [replaceAll?, hstart]
    exact ih _ _ (by simp only [capacity, Array.size_setIfInBounds] at h ⊢; omega)

end Stack

namespace View

variable (v : View) (s : Stack)

/-- The live slots of a window are inside the array. -/
def Within : Prop := 0 < v.top → v.base + v.top ≤ s.capacity

/-- What an access makes of the array, with a check of every index and slice. -/
def Access.checked (v : View) (s : Stack) (cells : Array Val) : Access → Option Stack
  | .set i x => (s.growTo (v.base + i + 1)).replace? (v.base + i) (.value x)
  | .setSlot i x => (s.growTo (v.base + i + 1)).replace? (v.base + i) x
  | .store i x =>
    match v.slot s i with
    | .cell _ => some s
    | .value _ => (s.growTo (v.base + i + 1)).replace? (v.base + i) (.value x)
  | .reify i => (s.growTo (v.base + i + 1)).replace? (v.base + i) (.cell ⟨cells.size⟩)
  | .setTop n => some (v.growTo s n)
  | .fit n =>
    if v.top < n then
      (v.growTo s n).slice? (v.base + v.top) (v.base + n)
        (Stack.wipe · (v.base + v.top) (n - v.top))
    else some s
  | .clearRange first last =>
    if last ≤ first then some s
    else (v.growTo s last).slice? (v.base + first) (v.base + last)
      (Stack.wipe · (v.base + first) (last - first))
  | .load xs => (v.growTo s xs.length).replaceAll? v.base (xs.map .value)
  | .insertFront x => do
    let moved ← (v.growTo s (v.top + 1)).slice? v.base (v.base + v.top + 1)
      (Stack.shiftUp · v.base v.top)
    moved.replace? v.base (.value x)
  | .restore saved => (v.growTo s saved.length).replaceAll? v.base saved
  | .growTo n => some (v.growTo s n)
  | _ => some s

theorem put_checked (i : Nat) (x : Slot) :
    (s.growTo (v.base + i + 1)).replace? (v.base + i) x = some (v.put s i x) :=
  if_pos (Stack.le_capacity_growTo s (v.base + i + 1))

theorem fit_checked (n : Nat) (cells : Array Val) :
    (Access.fit n).checked v s cells = some (v.fit s n).2 := by
  simp only [Access.checked, View.fit]
  by_cases h : v.top < n
  · rw [if_pos h, if_pos h]
    exact if_pos ⟨by omega, Stack.le_capacity_growTo s (v.base + n)⟩
  · rw [if_neg h, if_neg h]

theorem clearRange_checked (first last : Nat) (cells : Array Val) :
    (Access.clearRange first last).checked v s cells = some (v.clearRange s first last) := by
  simp only [Access.checked, View.clearRange]
  by_cases h : last ≤ first
  · rw [if_pos h, if_pos h]
  · rw [if_neg h, if_neg h]
    exact if_pos ⟨by omega, Stack.le_capacity_growTo s (v.base + last)⟩

theorem restore_checked (saved : List Slot) :
    (v.growTo s saved.length).replaceAll? v.base saved = some (v.restore s saved) :=
  Stack.replaceAll?_eq _ _ _ (Stack.le_capacity_growTo s (v.base + saved.length))

theorem load_checked (xs : List Val) (cells : Array Val) :
    (Access.load xs).checked v s cells = some (v.load s xs).2 := by
  rw [load_snd, ← restore_checked, List.length_map]
  rfl

theorem insertFront_checked (x : Val) (cells : Array Val) :
    (Access.insertFront x).checked v s cells = some (v.insertFront s x).2 := by
  have hroom : v.base + (v.top + 1) ≤ (v.growTo s (v.top + 1)).capacity :=
    Stack.le_capacity_growTo s (v.base + (v.top + 1))
  have hmoved : (v.growTo s (v.top + 1)).slice? v.base (v.base + v.top + 1)
      (Stack.shiftUp · v.base v.top) =
      some ⟨Stack.shiftUp (v.growTo s (v.top + 1)).slots v.base v.top⟩ :=
    if_pos ⟨by omega, hroom⟩
  show ((v.growTo s (v.top + 1)).slice? v.base (v.base + v.top + 1)
    (Stack.shiftUp · v.base v.top) >>= fun moved => moved.replace? v.base (.value x)) = _
  rw [hmoved]
  exact if_pos (by simp only [Stack.capacity, Stack.size_shiftUp] at hroom ⊢; omega)

theorem within_fit {n : Nat} (h : v.Within s) : (v.fit s n).1.Within (v.fit s n).2 := by
  intro hn
  have hkept := (v.keptBelow_fit s n).capacity
  rw [fit_fst] at hn ⊢
  dsimp only at hn ⊢
  by_cases htop : v.top < n
  · have hroom : v.base + n ≤ (v.growTo s n).capacity := Stack.le_capacity_growTo s (v.base + n)
    simp only [View.fit, if_pos htop, Stack.capacity, Stack.size_wipe] at hroom ⊢
    exact hroom
  · have hlive := h (by omega)
    omega

theorem within_load (xs : List Val) : (v.load s xs).1.Within (v.load s xs).2 := by
  intro _
  have hroom : v.base + xs.length ≤ (v.growTo s xs.length).capacity :=
    Stack.le_capacity_growTo s (v.base + xs.length)
  simpa [View.load, Stack.capacity] using hroom

theorem within_insertFront (x : Val) : (v.insertFront s x).1.Within (v.insertFront s x).2 := by
  intro _
  have hroom : v.base + (v.top + 1) ≤ (v.growTo s (v.top + 1)).capacity :=
    Stack.le_capacity_growTo s (v.base + (v.top + 1))
  simpa [View.insertFront, Stack.capacity] using hroom

variable {v s}

theorem Within.mono {t : Stack} (h : v.Within s) (hle : s.capacity ≤ t.capacity) : v.Within t :=
  fun htop => Nat.le_trans (h htop) hle

/-- The live slots of a nested window are live slots of the window around it. -/
theorem Within.child (h : v.Within s) (offset : Nat) : (v.child offset).Within s := by
  intro htop
  rw [child_top] at htop
  have hlive := h (by omega)
  rw [child_base, child_top]
  omega

/-! ## One access -/

/-- An access answers and acts as on the row that the stack shows. It passes all checks of bounds,
does not shrink the array and leaves live slots inside of it. -/
structure Access.Refines (a : Access) (v : View) (m : Machine F S) (answer : Answer) (w : View)
    (t : Machine F S) : Prop where
  act : a.act v m = .ok (answer, w) t
  refer : a.refer v m.row = (answer, w, t.row)
  checked : a.checked v m.thread.stack m.heap.cells = some t.thread.stack
  capacity : m.thread.stack.capacity ≤ t.thread.stack.capacity
  within : v.Within m.thread.stack → w.Within t.thread.stack

theorem values_row (m : Machine F S) (v : View) (first last : Nat) :
    v.values m.thread.stack m.heap.cells first last =
      m.row.values (v.base + first) (last - first) := by
  rw [Row.values, ← List.map_add_range', List.map_map]
  rfl

variable (v) (m : Machine F S)

/-- An access that changes nothing. -/
theorem read_refines {a : Access} {answer : Answer} (hact : a.act v m = .ok (answer, v) m)
    (hrefer : a.refer v m.row = (answer, v, m.row))
    (hchecked : a.checked v m.thread.stack m.heap.cells = some m.thread.stack) :
    ∃ answer w t, a.Refines v m answer w t :=
  ⟨answer, v, m, hact, hrefer, hchecked, Nat.le_refl _, id⟩

/-- An access that changes the stack only. -/
theorem stack_refines {a : Access} {g : Stack → View × Stack}
    (hact : a.act v m = (do return (.done, ← onStack g) : M F S (Answer × View)) m)
    (hkept : Stack.KeptBelow v.base m.thread.stack (g m.thread.stack).2)
    (hrefer : a.refer v m.row =
      (.done, (g m.thread.stack).1, ⟨(g m.thread.stack).2.slot, m.heap.cells⟩))
    (hchecked : a.checked v m.thread.stack m.heap.cells = some (g m.thread.stack).2)
    (hwithin : v.Within m.thread.stack → (g m.thread.stack).1.Within (g m.thread.stack).2) :
    ∃ answer w t, a.Refines v m answer w t := by
  obtain ⟨tr, htr⟩ := onStack_ok g m
  exact ⟨.done, _, _, hact.trans (bind_of_ok htr), hrefer, hchecked, hkept.capacity, hwithin⟩

/-- A slot is put. -/
theorem put_row (i : Nat) (x : Slot) :
    m.row.put (v.base + i) x = ⟨(v.put m.thread.stack i x).slot, m.heap.cells⟩ := by
  have hslot : (v.put m.thread.stack i x).slot = (m.row.put (v.base + i) x).slot :=
    funext fun j => Stack.slot_put _ _ _ _
  rw [hslot]
  rfl

theorem put_refines {a : Access} {i : Nat} {x : Slot}
    (hact : a.act v m = (do putSlot v i x; return (.done, v) : M F S (Answer × View)) m)
    (hrefer : a.refer v m.row = (.done, v, m.row.put (v.base + i) x))
    (hchecked : a.checked v m.thread.stack m.heap.cells =
      (m.thread.stack.growTo (v.base + i + 1)).replace? (v.base + i) x) :
    ∃ answer w t, a.Refines v m answer w t := by
  have hkept := v.keptBelow_put m.thread.stack i x
  obtain ⟨tr, htr⟩ := onStack_ok (fun s => ((), v.put s i x)) m
  exact ⟨.done, v, _, hact.trans (bind_of_ok htr), hrefer.trans (by rw [put_row]; rfl),
    hchecked.trans (put_checked v _ i x), hkept.capacity, fun h => h.mono hkept.capacity⟩

theorem store_refines (i : Nat) (x : Val) :
    ∃ answer w t, (Access.store i x).Refines v m answer w t := by
  have hslot : m.row.slot (v.base + i) = v.slot m.thread.stack i := rfl
  cases hcell : v.slot m.thread.stack i with
  | value y =>
    refine put_refines v m (i := i) (x := .value x) ?_ ?_ ?_
    · exact bind_at (Interpreter.store_bare (by rw [hcell]; rfl) x)
    · simp only [Access.refer, hslot, hcell]
    · simp only [Access.checked, hcell]
  | cell c =>
    have hput := Interpreter.store_cell hcell x
    have hstore := hput.trans (bind_of_ok (note_ok m _))
    refine ⟨.done, v, _, bind_of_ok hstore, ?_, ?_, Nat.le_refl _, id⟩
    · simp only [Access.refer, hslot, hcell]
      rfl
    · simp only [Access.checked, hcell]

/-- A slot gets a fresh cell, which holds its value. -/
theorem reify_refines (i : Nat) : ∃ answer w t, (Access.reify i).Refines v m answer w t := by
  have hkept := v.keptBelow_put m.thread.stack i (.cell ⟨m.heap.cells.size⟩)
  let u : Machine F S :=
    { m with heap := { m.heap with cells := m.heap.cells.push (m.row.get (v.base + i)) } }
  obtain ⟨tr, htr⟩ := onStack_ok (fun s => ((), v.put s i (.cell ⟨m.heap.cells.size⟩))) u
  have hvalue : (valueAt v i : M F S Val) m = .ok (m.row.get (v.base + i)) m := rfl
  have hcell : (newCell (m.row.get (v.base + i)) : M F S CellId) m =
      .ok ⟨m.heap.cells.size⟩ u := rfl
  have hreify : Machine.reify v i m = .ok ⟨m.heap.cells.size⟩
      (u.restack (v.put m.thread.stack i (.cell ⟨m.heap.cells.size⟩)) tr) := by
    unfold Machine.reify
    rw [bind_of_ok hvalue, bind_of_ok hcell]
    exact bind_of_ok htr
  refine ⟨_, v, _, bind_of_ok hreify, ?_, put_checked v _ i _, hkept.capacity,
    fun h => h.mono hkept.capacity⟩
  exact congrArg (Answer.cell _, v, ·) (put_row v u i _)

/-- **One access.** Whatever window it is made of, an access answers and acts as on the row, inside
the array. -/
theorem act_refines (a : Access) : ∃ answer w t, a.Refines v m answer w t := by
  -- What an access makes of the slots is known place by place.
  have hrow : ∀ {answer : Answer} {w : View} {r : Row} {s : Stack}, (∀ i, s.slot i = r.slot i) →
      r.cells = m.heap.cells → (answer, w, r) = (answer, w, (⟨s.slot, m.heap.cells⟩ : Row)) := by
    rintro answer w r s hslot hcells
    rw [funext hslot, ← hcells]
  cases a with
  | get i => exact read_refines v m rfl rfl rfl
  | slot i => exact read_refines v m rfl rfl rfl
  | cell i => exact read_refines v m rfl rfl rfl
  | values first last => exact read_refines v m rfl (by rw [values_row]; rfl) rfl
  | valuesFrom first => exact read_refines v m rfl (by rw [values_row]; rfl) rfl
  | snapshot n => exact read_refines v m rfl rfl rfl
  | top => exact read_refines v m rfl rfl rfl
  | getCell c => exact read_refines v m rfl rfl rfl
  | set i x => exact put_refines v m rfl rfl rfl
  | setSlot i x => exact put_refines v m rfl rfl rfl
  | store i x => exact store_refines v m i x
  | reify i => exact reify_refines v m i
  | setTop n =>
    refine stack_refines v m (g := (v.setTop · n)) rfl (v.keptBelow_growTo _ n) ?_ rfl fun _ _ => ?_
    · exact hrow (fun i => v.slot_growTo _ n i) rfl
    · exact Stack.le_capacity_growTo _ _
  | fit n =>
    refine stack_refines v m (g := (v.fit · n)) rfl (v.keptBelow_fit _ n) ?_
      (fit_checked v _ n _) (within_fit v _)
    rw [fit_fst]
    exact hrow (fun i => slot_fit v _ n i) rfl
  | clearRange first last =>
    have hkept := v.keptBelow_clearRange m.thread.stack first last
    refine stack_refines v m (g := fun s => (v, v.clearRange s first last)) rfl hkept ?_
      (clearRange_checked v _ first last _) fun h => h.mono hkept.capacity
    exact hrow (fun i => slot_clearRange v _ first last i) rfl
  | load xs =>
    refine stack_refines v m (g := (v.load · xs)) rfl (v.keptBelow_load _ xs) ?_
      (load_checked v _ xs _) fun _ => within_load v _ xs
    rw [load_snd]
    exact hrow (fun i => slot_restore v _ _ i) rfl
  | insertFront x =>
    refine stack_refines v m (g := (v.insertFront · x)) rfl (v.keptBelow_insertFront _ x) ?_
      (insertFront_checked v _ x _) fun _ => within_insertFront v _ x
    exact hrow (fun i => slot_insertFront v _ x i) rfl
  | restore saved =>
    have hkept := v.keptBelow_restore m.thread.stack saved
    refine stack_refines v m (g := fun s => (v, v.restore s saved)) rfl hkept ?_
      (restore_checked v _ saved) fun h => h.mono hkept.capacity
    exact hrow (fun i => slot_restore v _ saved i) rfl
  | growTo n =>
    have hkept := v.keptBelow_growTo m.thread.stack n
    refine stack_refines v m (g := fun s => (v, v.growTo s n)) rfl hkept ?_ rfl
      fun h => h.mono hkept.capacity
    exact hrow (fun i => v.slot_growTo _ n i) rfl
  | newCell x => exact ⟨_, v, _, rfl, rfl, rfl, Nat.le_refl _, id⟩
  | putCell c x =>
    exact ⟨.done, v, _, bind_of_ok (bind_of_ok (note_ok m _)), rfl, rfl, Nat.le_refl _, id⟩

/-! ## Nested windows -/

/-- A step with windows: an access of the innermost one, or of a fresh one on the whole stack if
none is open; or a window is opened in it, or given up. -/
inductive Visit
  | access (a : Access)
  | child (offset : Nat)
  | reborrow
  | leave

namespace Visit

def act (views : List View) : Visit → M F S (Answer × List View)
  | .access a => do
    let (answer, v) ← a.act (views.headD .root)
    return (answer, views.set 0 v)
  | .child offset => return (.done, (views.headD .root).child offset :: views)
  | .reborrow => return (.done, views.headD .root :: views)
  | .leave => return (.done, views.tail)

/-- The step with windows on a row. -/
def refer (views : List View) (r : Row) : Visit → Answer × List View × Row
  | .access a =>
    let (answer, v, r) := a.refer (views.headD .root) r
    (answer, views.set 0 v, r)
  | .child offset => (.done, (views.headD .root).child offset :: views, r)
  | .reborrow => (.done, views.headD .root :: views, r)
  | .leave => (.done, views.tail, r)

/-- What the step makes of the array, with a check of every index and slice. -/
def checked (views : List View) (s : Stack) (cells : Array Val) : Visit → Option Stack
  | .access a => a.checked (views.headD .root) s cells
  | _ => some s

/-- Steps one after another. -/
def actAll (views : List View) : List Visit → M F S (List Answer × List View)
  | [] => return ([], views)
  | x :: rest => do
    let (answer, views) ← x.act views
    let (answers, views) ← actAll views rest
    return (answer :: answers, views)

def referAll (views : List View) (r : Row) : List Visit → List Answer × List View × Row
  | [] => ([], views, r)
  | x :: rest =>
    let (answer, views, r) := x.refer views r
    let (answers, views, r) := referAll views r rest
    (answer :: answers, views, r)

/-- A step answers and acts as on the row that the stack shows. It passes all checks of bounds, does
not shrink the array and leaves the live slots of all windows inside of it. -/
structure Refines (x : Visit) (views : List View) (m : Machine F S) (answer : Answer)
    (views' : List View) (t : Machine F S) : Prop where
  act : x.act views m = .ok (answer, views') t
  refer : x.refer views m.row = (answer, views', t.row)
  checked : x.checked views m.thread.stack m.heap.cells = some t.thread.stack
  capacity : m.thread.stack.capacity ≤ t.thread.stack.capacity
  within : (∀ v ∈ views, v.Within m.thread.stack) → ∀ v ∈ views', v.Within t.thread.stack

theorem within_head {views : List View} {s : Stack} (h : ∀ v ∈ views, v.Within s) :
    (views.headD .root).Within s := by
  rcases views with _ | ⟨v, views⟩
  · exact nofun
  · exact h v List.mem_cons_self

theorem refines (x : Visit) (views : List View) (m : Machine F S) :
    ∃ answer views' t, x.Refines views m answer views' t := by
  rcases x with a | offset | _ | _
  · obtain ⟨answer, w, t, h⟩ := act_refines (views.headD .root) m a
    refine ⟨answer, views.set 0 w, t, bind_of_ok h.act, ?_, h.checked, h.capacity, ?_⟩
    · simp only [Visit.refer, h.refer]
    · intro hviews v hv
      obtain hv | rfl := List.mem_or_eq_of_mem_set hv
      · exact (hviews v hv).mono h.capacity
      · exact h.within (within_head hviews)
  · refine ⟨.done, _, m, rfl, rfl, rfl, Nat.le_refl _, fun hviews => ?_⟩
    exact List.forall_mem_cons.2 ⟨(within_head hviews).child offset, hviews⟩
  · refine ⟨.done, _, m, rfl, rfl, rfl, Nat.le_refl _, fun hviews => ?_⟩
    exact List.forall_mem_cons.2 ⟨within_head hviews, hviews⟩
  · exact ⟨.done, _, m, rfl, rfl, rfl, Nat.le_refl _,
      fun hviews v hv => hviews v (List.mem_of_mem_tail hv)⟩

/-- Steps one after another answer and act as on the row. -/
theorem refines_all (visits : List Visit) (views : List View) (m : Machine F S)
    (hviews : ∀ v ∈ views, v.Within m.thread.stack) : ∃ answers views' t,
    actAll views visits m = .ok (answers, views') t ∧
      referAll views m.row visits = (answers, views', t.row) ∧
      m.thread.stack.capacity ≤ t.thread.stack.capacity ∧
      ∀ v ∈ views', v.Within t.thread.stack := by
  induction visits generalizing views m with
  | nil => exact ⟨[], views, m, rfl, rfl, Nat.le_refl _, hviews⟩
  | cons x rest ih =>
    obtain ⟨answer, views₁, t, h⟩ := x.refines views m
    obtain ⟨answers, views₂, u, hact, hrefer, hcapacity, hwithin⟩ := ih views₁ t (h.within hviews)
    refine ⟨answer :: answers, views₂, u, ?_, ?_, Nat.le_trans h.capacity hcapacity, hwithin⟩
    · exact (bind_of_ok h.act).trans (bind_of_ok hact)
    · simp only [referAll, h.refer, hrefer]

end Visit

theorem row_ofCapacity (m : Machine F S) (n : Nat) (tr : Option (Array TraceEvent)) :
    (m.restack (.ofCapacity n) tr).row = .blank m.heap.cells := by
  have hslot : (Stack.ofCapacity n).slot = fun _ => Slot.nil := by
    funext i
    simp only [Stack.slot, Stack.ofCapacity, Array.getD_eq_getD_getElem?, Array.getElem?_replicate]
    split <;> rfl
  simp only [row, restack_stack, hslot]
  rfl

/-- **Windows on an unbounded row.** Start with a stack of any capacity and take any steps with
nested windows. All answers, windows and slots are those on a row without end that is nil at first,
so the capacity is not visible; live slots are inside the array, which has not shrunk; and so it is
after any further step, which goes to no index and no slice outside of the array. -/
theorem views_refine_row (m : Machine F S) (n : Nat) (tr : Option (Array TraceEvent))
    (visits : List Visit) : ∃ answers views t,
    Visit.actAll [] visits (m.restack (.ofCapacity n) tr) = .ok (answers, views) t ∧
      Visit.referAll [] (.blank m.heap.cells) visits = (answers, views, t.row) ∧
      n ≤ t.thread.stack.capacity ∧ (∀ v ∈ views, v.Within t.thread.stack) ∧
      ∀ x : Visit, ∃ answer views' u, x.Refines views t answer views' u := by
  obtain ⟨answers, views, t, hact, hrefer, hcapacity, hwithin⟩ :=
    Visit.refines_all visits [] (m.restack (.ofCapacity n) tr) nofun
  rw [row_ofCapacity] at hrefer
  have hn : n ≤ t.thread.stack.capacity := by
    simpa [Stack.ofCapacity, Stack.capacity] using hcapacity
  exact ⟨answers, views, t, hact, hrefer, hn, hwithin, fun x => x.refines views t⟩

end View

end ScriptCore
