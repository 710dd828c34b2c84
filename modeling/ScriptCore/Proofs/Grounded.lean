import ScriptCore.Proofs.Twin
import ScriptCore.Proofs.Variables

/-!
# Steps on captured variables

The heap is a store of captured variables (`Heap.variables`). A machine is `Grounded` if every cell
that a closure, a slot or a suspended frame holds is one of the heap, and every closure has as many
cells as its body has variables.

`Tracks p x`: from a grounded machine the step `x` ends in a grounded one, and what it has done to
the variables is a sequence of operations of the store (`Machine.Moves`). A step of this kind is put
together from others by following its text. Here are the steps of the machine and the native
functions that call nothing; `p` finds the machine in a state, which may have a frame as well.
-/

namespace ScriptCore

open Machine

/-! ## The heap as a store -/

/-- The captured variables of the functions of a heap. -/
def Heap.variables {F : Type} [HostFunction F] (h : Heap F) : Variables where
  bound f i := (h.function f).upvalue? i
  value := h.cell
  cells := h.cells.size
  functions := h.functions.size

section Within

/-- A slot without a cell, or with one of the first `n` cells. -/
def Slot.Within (n : Nat) : Slot → Prop
  | .cell c => c.index < n
  | .value _ => True

/-- A function whose variables have one of the first `n` cells each. -/
def Callable.Within {F : Type} (n : Nat) : Callable F → Prop
  | .closure p cells => cells.size = p.upvalues.length ∧ ∀ c ∈ cells, c.index < n
  | _ => True

def Link.Within (n : Nat) (link : Link) : Prop := ∀ x ∈ link.saved.slots, x.Within n

variable {n k : Nat}

theorem Slot.Within.mono {x : Slot} (h : x.Within n) (hk : n ≤ k) : x.Within k := by
  cases x with
  | cell c => exact Nat.lt_of_lt_of_le h hk
  | value => trivial

theorem Callable.Within.mono {F : Type} {c : Callable F} (h : c.Within n) (hk : n ≤ k) :
    c.Within k := by
  cases c with
  | closure p cells => exact ⟨h.1, fun c hc => Nat.lt_of_lt_of_le (h.2 c hc) hk⟩
  | builtin | protectedCall | wrapped | routine | host => trivial

theorem Link.Within.mono {link : Link} (h : link.Within n) (hk : n ≤ k) : link.Within k :=
  fun x hx => (h x hx).mono hk

end Within

namespace Machine

/-- All cells that are held anywhere are cells of the heap. -/
structure Grounded (m : Machine Empty PUnit) : Prop where
  functions : ∀ f, (m.heap.function f).Within m.heap.cells.size
  stack : ∀ i, (m.thread.stack.slot i).Within m.heap.cells.size
  chains : ∀ co chain, m.heap.coroutine co = .suspended chain →
    ∀ link ∈ chain, link.Within m.heap.cells.size

/-- A later state of a machine, in which the variables have been operated on. -/
structure Moves (m t : Machine Empty PUnit) : Prop where
  cells : m.heap.cells.size ≤ t.heap.cells.size
  grounded : t.Grounded
  ops : ∃ ops, t.heap.variables = m.heap.variables.after ops

variable {m t u : Machine Empty PUnit}

theorem Moves.refl (h : m.Grounded) : m.Moves m := ⟨Nat.le_refl _, h, [], rfl⟩

theorem Moves.trans (h : m.Moves t) (k : t.Moves u) : m.Moves u := by
  obtain ⟨xs, hxs⟩ := h.ops
  obtain ⟨ys, hys⟩ := k.ops
  exact ⟨Nat.le_trans h.cells k.cells, k.grounded, xs ++ ys, by
    rw [Variables.after_append, ← hxs, hys]⟩

/-- Variables are not touched by what leaves cells and functions alone. -/
theorem Moves.elsewhere (hcells : t.heap.cells = m.heap.cells)
    (hfunctions : t.heap.functions = m.heap.functions) (h : t.Grounded) : m.Moves t := by
  refine ⟨Nat.le_of_eq (congrArg Array.size hcells.symm), h, [], ?_⟩
  show Heap.variables _ = Heap.variables _
  unfold Heap.variables Heap.cell Heap.function
  rw [hcells, hfunctions]

theorem Grounded.congr (h : m.Grounded) (hcells : t.heap.cells = m.heap.cells)
    (hfunctions : t.heap.functions = m.heap.functions)
    (hcoroutines : t.heap.coroutines = m.heap.coroutines)
    (hstack : t.thread.stack = m.thread.stack) : t.Grounded where
  functions f := by
    rw [Heap.function, hfunctions, hcells]
    exact h.functions f
  stack i := by
    rw [hstack, hcells]
    exact h.stack i
  chains co chain hco := by
    rw [Heap.coroutine, hcoroutines] at hco
    rw [hcells]
    exact h.chains co chain hco

/-- Objects without cells, the channel, the counters and the reports do not matter. -/
theorem Moves.same (h : m.Grounded) (hcells : t.heap.cells = m.heap.cells)
    (hfunctions : t.heap.functions = m.heap.functions)
    (hcoroutines : t.heap.coroutines = m.heap.coroutines)
    (hstack : t.thread.stack = m.thread.stack) : m.Moves t :=
  .elsewhere hcells hfunctions (h.congr hcells hfunctions hcoroutines hstack)

/-- Every variable of a grounded heap has one of its cells. -/
theorem Grounded.variable_within (hm : m.Grounded) {f : FnId} {i : Nat} {x : String × CellId}
    (hx : (m.heap.function f).upvalue? i = some x) : x.2.index < m.heap.cells.size := by
  have hc := hm.functions f
  generalize m.heap.function f = c at hc hx
  cases c with
  | closure p cells =>
    simp only [Callable.upvalue?, Option.bind_eq_bind, Option.bind_eq_some_iff,
      Option.pure_def, Option.some.injEq] at hx
    obtain ⟨u, -, d, hd, rfl⟩ := hx
    exact hc.2 d (Array.mem_of_getElem? hd)
  | host h => exact h.elim
  | builtin | protectedCall | wrapped | routine => cases hx

/-- Only functions of the heap have variables. -/
theorem variable_made {f : FnId} {i : Nat} {x : String × CellId}
    (hx : (m.heap.function f).upvalue? i = some x) : f.index < m.heap.functions.size := by
  refine Nat.lt_of_not_le fun hf => ?_
  have hnone : m.heap.function f = default := by
    rw [Heap.function, Array.getD_eq_getD_getElem?, Array.getElem?_eq_none hf]
    rfl
  rw [hnone] at hx
  cases hx

theorem Grounded.sound (hm : m.Grounded) : m.heap.variables.Sound where
  cell h := hm.variable_within h
  function h := variable_made h

end Machine

/-! ## Steps that keep track -/

section Tracks

variable {σ α β : Type}

/-- An ending that a grounded state has come to. -/
def Tracked (p : σ → Machine Empty PUnit) (s : σ) : EStateM.Result Unwind σ α → Prop
  | .ok _ t => (p s).Moves (p t)
  | .error e t => (p s).Moves (p t) ∧
    ∀ c, e = .suspend c → ∀ link ∈ c.chain, link.Within (p t).heap.cells.size

/-- From grounded states a step changes the variables by operations of the store. -/
def Tracks (p : σ → Machine Empty PUnit) (x : EStateM Unwind σ α) : Prop :=
  ∀ s, (p s).Grounded → Tracked p s (x s)

variable {p : σ → Machine Empty PUnit} {s t : σ} {x : EStateM Unwind σ α}
variable {f : α → EStateM Unwind σ β}

theorem Tracked.trans {r : EStateM.Result Unwind σ α} (h : (p s).Moves (p t)) (hr : Tracked p t r) :
    Tracked p s r := by
  cases r with
  | ok a u => exact h.trans hr
  | error e u => exact ⟨h.trans hr.1, hr.2⟩

theorem Tracked.bind (hx : Tracked p s (x s))
    (hf : ∀ a t, x s = .ok a t → (p s).Moves (p t) → Tracked p t (f a t)) :
    Tracked p s ((x >>= f) s) := by
  cases h : x s with
  | ok a t =>
    rw [h] at hx
    rw [bind_of_ok h]
    exact (hf a t h hx).trans hx
  | error e t =>
    rw [h] at hx
    rw [bind_of_error h]
    exact hx

namespace Tracks

theorem bind (hx : Tracks p x) (hf : ∀ a, Tracks p (f a)) : Tracks p (x >>= f) :=
  fun s hs => (hx s hs).bind fun a t _ ht => hf a t ht.grounded

theorem pure (a : α) : Tracks p (pure a) := fun _ hs => Moves.refl hs

theorem throw {e : Unwind} (h : e.Plain) : Tracks p (throw e : EStateM Unwind σ α) :=
  fun _ hs => ⟨.refl hs, fun c he => by subst he; exact h.elim⟩

theorem get : Tracks p (get : EStateM Unwind σ σ) := fun _ hs => Moves.refl hs

theorem modify {g : σ → α × σ} (h : ∀ s, (p s).Grounded → (p s).Moves (p (g s).2)) :
    Tracks p (modifyGet g : EStateM Unwind σ α) := h

theorem ite {c : Prop} [Decidable c] {y : EStateM Unwind σ α} (hx : Tracks p x) (hy : Tracks p y) :
    Tracks p (if c then x else y) := by
  split
  · exact hx
  · exact hy

/-- A check before the rest of a step. -/
theorem guard {c : Prop} [Decidable c] {y : EStateM Unwind σ PUnit} {k : PUnit → EStateM Unwind σ α}
    (hy : Tracks p y) (hk : Tracks p (k ())) : Tracks p (if c then y >>= k else k ()) :=
  .ite (hy.bind fun _ => hk) hk

end Tracks

end Tracks

namespace Machine

variable {α β : Type}

/-- The steps of the machine itself. -/
abbrev Tracking (x : M Empty PUnit α) : Prop := Tracks id x

theorem fail_tracks (f : Fault) : Tracking (fail f : M Empty PUnit α) := .throw trivial

theorem violate_tracks (v : Violation) : Tracking (violate v : M Empty PUnit α) := fail_tracks _

theorem orFail_tracks (r : Except Fault α) : Tracking (orFail r) := by
  cases r with
  | ok a => exact .pure a
  | error f => exact fail_tracks f

theorem orViolate_tracks (r : Except Violation α) : Tracking (orViolate r) := by
  cases r with
  | ok a => exact .pure a
  | error v => exact violate_tracks v

theorem orOverflow_tracks (r : Option α) : Tracking (orOverflow r) := by
  cases r with
  | some a => exact .pure a
  | none => exact .throw trivial

/-- An ending that is passed on. -/
theorem throw_tracked {e : Unwind} {m : Machine Empty PUnit} (hm : m.Grounded)
    (h : ∀ c, e = .suspend c → ∀ link ∈ c.chain, link.Within m.heap.cells.size) :
    Tracked id m ((throw e : M Empty PUnit α) m) := ⟨.refl hm, h⟩

/-- What follows an attempt knows how it ended. -/
theorem attempt_tracked {x : M Empty PUnit α} {k : Except Unwind α → M Empty PUnit β}
    {m : Machine Empty PUnit} (hx : Tracked id m (x m))
    (hok : ∀ a t, m.Moves t → Tracked id t (k (.ok a) t))
    (herror : ∀ e t, m.Moves t →
      (∀ c, e = .suspend c → ∀ link ∈ c.chain, link.Within t.heap.cells.size) →
      Tracked id t (k (.error e) t)) : Tracked id m ((attempt x >>= k) m) := by
  cases h : x m with
  | ok a t =>
    rw [h] at hx
    rw [bind_of_ok (show attempt x m = .ok (.ok a) t by unfold attempt; rw [h])]
    exact (hok a t hx).trans hx
  | error e t =>
    rw [h] at hx
    rw [bind_of_ok (show attempt x m = .ok (.error e) t by unfold attempt; rw [h])]
    exact (herror e t hx.1 hx.2).trans hx.1

/-- What is done however a step ends leaves objects and slots alone. -/
theorem ensuring_tracked {x : M Empty PUnit α} {after : Machine Empty PUnit → Machine Empty PUnit}
    {m : Machine Empty PUnit} (hx : Tracked id m (x m)) (hheap : ∀ t, (after t).heap = t.heap)
    (hstack : ∀ t, (after t).thread.stack = t.thread.stack) :
    Tracked id m (ensuring x after m) := by
  have hmoves : ∀ t, m.Moves t → m.Moves (after t) := fun t h =>
    h.trans (.same h.grounded (by rw [hheap]) (by rw [hheap]) (by rw [hheap]) (hstack t))
  unfold ensuring
  cases h : x m with
  | ok a t => rw [h] at hx; exact hmoves t hx
  | error e t =>
    rw [h] at hx
    refine ⟨hmoves t hx.1, ?_⟩
    show ∀ c, e = .suspend c → ∀ link ∈ c.chain, link.Within (after t).heap.cells.size
    rw [hheap]
    exact hx.2

/-! ## Steps elsewhere -/

theorem record_tracks (e : Unit → TraceEvent) : Tracking (record e : M Empty PUnit Unit) :=
  fun m hm => by
    obtain ⟨t, ht⟩ := record_ok m e
    rw [ht]
    exact Moves.same hm rfl rfl rfl rfl

theorem note_tracks (w : Write) : Tracking (note w : M Empty PUnit Unit) := fun m hm => by
  rw [note_ok]
  exact Moves.same hm rfl rfl rfl rfl

theorem emit_tracks (s : String) : Tracking (emit s : M Empty PUnit Unit) :=
  .modify fun _ hm => .same hm rfl rfl rfl rfl

theorem newTable_tracks : Tracking (newTable : M Empty PUnit TableId) :=
  .modify fun _ hm => .same hm rfl rfl rfl rfl

theorem onTable_tracks (t : TableId) (f : Table → Table) :
    Tracking (onTable t f : M Empty PUnit Unit) :=
  .modify fun _ hm => .same hm rfl rfl rfl rfl

theorem setTable_tracks (t : TableId) (key value : Val) :
    Tracking (setTable t key value : M Empty PUnit Unit) := by
  unfold setTable
  split
  · exact (note_tracks _).bind fun _ => onTable_tracks _ _
  · exact fail_tracks _

theorem setList_tracks (t : TableId) (first : Int) (values : List Val) :
    Tracking (setList t first values : M Empty PUnit Unit) :=
  (note_tracks _).bind fun _ => onTable_tracks _ _

theorem setMetatable_tracks (t : TableId) (meta? : Option TableId) :
    Tracking (setMetatable t meta? : M Empty PUnit Unit) :=
  (note_tracks _).bind fun _ => onTable_tracks _ _

theorem setTypeMetatable_tracks (k : Kind) (meta? : Option TableId) :
    Tracking (setTypeMetatable k meta? : M Empty PUnit Unit) :=
  .modify fun _ hm => .same hm rfl rfl rfl rfl

theorem metatableOf_tracks (v : Val) : Tracking (metatableOf v : M Empty PUnit (Option TableId)) :=
  Tracks.get.bind fun m => by
    split <;> exact .pure _

theorem tableAt_tracks (t : TableId) : Tracking (tableAt t : M Empty PUnit Table) :=
  Tracks.get.bind fun _ => .pure _

theorem cellAt_tracks (c : CellId) : Tracking (cellAt c : M Empty PUnit Val) :=
  Tracks.get.bind fun _ => .pure _

theorem functionAt_tracks (f : FnId) : Tracking (functionAt f : M Empty PUnit (Callable Empty)) :=
  Tracks.get.bind fun _ => .pure _

theorem config_tracks : Tracking (config : M Empty PUnit Config) :=
  Tracks.get.bind fun _ => .pure _

theorem globals_tracks : Tracking (globals : M Empty PUnit TableId) :=
  Tracks.get.bind fun _ => .pure _

theorem metamethod_tracks (v : Val) (e : Event) :
    Tracking (metamethod v e : M Empty PUnit (Option Val)) :=
  (metatableOf_tracks v).bind fun t? => by
    cases t? with
    | none => exact .pure _
    | some t => exact (tableAt_tracks t).bind fun _ => .pure _

theorem onResults_tracks (f : Results → α × Results) : Tracking (onResults f : M Empty PUnit α) :=
  .modify fun _ hm => .same hm rfl rfl rfl rfl

theorem setChannel_tracks (r : Results) : Tracking (setChannel r : M Empty PUnit Unit) :=
  onResults_tracks fun _ => ((), r)

theorem giveAll_tracks (values : List Val) : Tracking (giveAll values : M Empty PUnit Unit) :=
  setChannel_tracks _

theorem give_tracks (v : Val) : Tracking (give v : M Empty PUnit Unit) := setChannel_tracks _

theorem requestTailCall_tracks (target : Val) (args : List Val) :
    Tracking (requestTailCall target args : M Empty PUnit Unit) := setChannel_tracks _

theorem result_tracks (i : Nat) : Tracking (result i : M Empty PUnit Val) :=
  Tracks.get.bind fun _ => orViolate_tracks _

theorem resultList_tracks : Tracking (resultList : M Empty PUnit (List Val)) :=
  Tracks.get.bind fun _ => orViolate_tracks _

theorem prependResult_tracks (v : Val) : Tracking (prependResult v : M Empty PUnit Unit) :=
  Tracks.get.bind fun _ => (orViolate_tracks _).bind fun _ => setChannel_tracks _

theorem onThread_tracks {f : Thread → Thread} (hf : ∀ t, (f t).stack = t.stack) :
    Tracking (onThread f : M Empty PUnit Unit) :=
  .modify fun m hm => .same hm rfl rfl rfl (hf m.thread)

theorem enter_tracks : Tracking (enter : M Empty PUnit Unit) :=
  Tracks.get.bind fun _ => .guard (fail_tracks _) (onThread_tracks fun _ => rfl)

theorem switchTo_tracks (co : Option CoId) (boundaries : Nat) :
    Tracking (switchTo co boundaries : M Empty PUnit (Option CoId × Nat)) :=
  Tracks.get.bind fun _ =>
    (onThread_tracks (f := fun t => { t with current := co, boundaries := boundaries })
      fun _ => rfl).bind fun _ => .pure _

/-- A yield leaves no frame yet. -/
theorem yieldValues_tracks (values : List Val) : Tracking (yieldValues values : M Empty PUnit α) :=
  Tracks.get.bind fun _ => .guard (fail_tracks _) <| .guard (fail_tracks _) fun _ hm =>
    show Tracked id _ (.error _ _) from
      ⟨.refl hm, fun c hc link hlink => by cases hc; cases hlink⟩

/-! ## Cells and functions -/

/-- A new cell takes the place of no other. -/
theorem moves_newCell {m : Machine Empty PUnit} (hm : m.Grounded) (v : Val) :
    m.Moves { m with heap := { m.heap with cells := m.heap.cells.push v } } ∧
      { m.heap with cells := m.heap.cells.push v }.variables = m.heap.variables.introduced v := by
  have hsize : m.heap.cells.size ≤ (m.heap.cells.push v).size := by simp
  have hvariables : { m.heap with cells := m.heap.cells.push v }.variables =
      m.heap.variables.introduced v := by
    refine Variables.ext rfl (funext fun c => ?_) (by simp [Heap.variables, Variables.introduced]) rfl
    simp only [Heap.variables, Variables.introduced, Heap.cell, Array.getD_eq_getD_getElem?,
      Array.getElem?_push]
    by_cases hc : c.index = m.heap.cells.size
    · rw [if_pos hc, if_pos (show c = ⟨m.heap.cells.size⟩ from congrArg CellId.mk hc)]
      rfl
    · rw [if_neg hc, if_neg (show ¬ c = ⟨m.heap.cells.size⟩ from fun h =>
        hc (congrArg CellId.index h))]
  exact ⟨⟨hsize, ⟨fun f => (hm.functions f).mono hsize, fun i => (hm.stack i).mono hsize,
    fun co chain hco link hlink => (hm.chains co chain hco link hlink).mono hsize⟩,
    [.introduce v], hvariables⟩, hvariables⟩

theorem newCell_tracks (v : Val) : Tracking (newCell v : M Empty PUnit CellId) :=
  .modify fun _ hm => (moves_newCell hm v).1

/-- A write to a cell. -/
theorem moves_putCell {m : Machine Empty PUnit} (hm : m.Grounded) (c : CellId) (v : Val) :
    m.Moves { m with heap := { m.heap with cells := m.heap.cells.setIfInBounds c.index v } } ∧
      { m.heap with cells := m.heap.cells.setIfInBounds c.index v }.variables =
        m.heap.variables.write c v := by
  have hsize : (m.heap.cells.setIfInBounds c.index v).size = m.heap.cells.size :=
    Array.size_setIfInBounds
  have hvariables : { m.heap with cells := m.heap.cells.setIfInBounds c.index v }.variables =
      m.heap.variables.write c v := by
    unfold Variables.write
    by_cases hc : c.index < m.heap.cells.size
    · rw [if_pos (show c.index < m.heap.variables.cells from hc)]
      refine Variables.ext rfl (funext fun d => ?_) hsize rfl
      simp only [Heap.variables, Heap.cell, Array.getD_eq_getD_getElem?,
        Array.getElem?_setIfInBounds]
      by_cases hd : d = c
      · rw [if_pos hd, hd, if_pos rfl, if_pos hc]
        rfl
      · rw [if_neg hd, if_neg fun h => hd (congrArg CellId.mk h.symm)]
    · rw [if_neg (show ¬ c.index < m.heap.variables.cells from hc),
        Array.setIfInBounds_eq_of_size_le (Nat.le_of_not_lt hc)]
  refine ⟨⟨Nat.le_of_eq hsize.symm, ⟨fun f => ?_, fun i => ?_, fun co chain hco link hlink => ?_⟩,
    [.assign (some c) v], hvariables⟩, hvariables⟩
  · exact (hm.functions f).mono (Nat.le_of_eq hsize.symm)
  · exact (hm.stack i).mono (Nat.le_of_eq hsize.symm)
  · exact (hm.chains co chain hco link hlink).mono (Nat.le_of_eq hsize.symm)

/-- Writes to cells, noted. -/
theorem putCell_moves {m : Machine Empty PUnit} (hm : m.Grounded) (c : CellId) (v : Val) :
    ∃ t, putCell c v m = .ok () t ∧ m.Moves t ∧ t.heap.variables = m.heap.variables.write c v := by
  have hnoted : m.Moves { m with journal := m.journal.map (·.push (.cell c v)) } :=
    .same hm rfl rfl rfl rfl
  obtain ⟨hmoves, hvariables⟩ := moves_putCell hnoted.grounded c v
  exact ⟨_, bind_of_ok (note_ok m _), hnoted.trans hmoves, hvariables⟩

theorem putCell_tracks (c : CellId) (v : Val) : Tracking (putCell c v : M Empty PUnit Unit) :=
  fun m hm => by
    obtain ⟨t, ht, hmoves, -⟩ := putCell_moves (m := m) hm c v
    rw [ht]
    exact hmoves

/-! ## Functions -/

end Machine

/-- The captured variables of a function. -/
def Callable.variables : Callable Empty → List (String × CellId)
  | .closure p cells => (p.upvalues.map (·.name)).zip cells.toList
  | _ => []

theorem Callable.variables_getElem? (c : Callable Empty) (i : Nat) :
    c.variables[i]? = c.upvalue? i := by
  cases c with
  | closure p cells =>
    simp only [Callable.variables, upvalue?, List.zip, List.getElem?_zipWith, List.getElem?_map,
      Array.getElem?_toList]
    cases p.upvalues[i]? <;> cases cells[i]? <;> rfl
  | host h => exact h.elim
  | builtin | protectedCall | wrapped | routine => rfl

/-- Variables that a closure takes over from slots. -/
theorem Variables.resolve_slots (V : Variables) (xs : List (String × CellId)) :
    V.resolve (xs.map fun x => (x.1, .slot (some x.2))) = some xs := by
  induction xs with
  | nil => rfl
  | cons x xs ih =>
    rw [List.map_cons, Variables.resolve, ih]
    rfl

/-- A function whose variable is bound to another cell. -/
theorem Callable.replaceUpvalue?_some {c : Callable Empty} {i n : Nat} (hc : c.Within n)
    {x : String × CellId} (hx : c.upvalue? i = some x) (d : CellId) :
    ∃ c', c.replaceUpvalue? i d = some c' ∧ (d.index < n → c'.Within n) ∧
      ∀ j, c'.upvalue? j = if j = i then some (x.1, d) else c.upvalue? j := by
  cases c with
  | closure p cells =>
    have hi : i < cells.size := by
      refine Nat.lt_of_not_le fun hi => ?_
      simp [Callable.upvalue?, Array.getElem?_eq_none hi] at hx
    refine ⟨_, if_pos hi, fun hd => ⟨?_, fun e he => ?_⟩, fun j => ?_⟩
    · rw [Array.size_setIfInBounds]
      exact hc.1
    · obtain ⟨k, hk, rfl⟩ := Array.mem_iff_getElem.1 he
      rw [Array.size_setIfInBounds] at hk
      rw [Array.getElem_setIfInBounds hk]
      split
      · exact hd
      · exact hc.2 _ (Array.getElem_mem hk)
    · simp only [Callable.upvalue?, Array.getElem?_setIfInBounds]
      by_cases hj : j = i
      · subst hj
        rw [if_pos rfl, if_pos rfl, if_pos hi]
        cases hu : p.upvalues[j]? with
        | none => simp [Callable.upvalue?, hu] at hx
        | some u =>
          obtain rfl : (u.name, cells[j]) = x := by
            simpa [Callable.upvalue?, hu, Array.getElem?_eq_getElem hi] using hx
          rfl
      · rw [if_neg hj, if_neg (Ne.symm hj)]
  | host h => exact h.elim
  | builtin | protectedCall | wrapped | routine => cases hx

namespace Machine

variable {m : Machine Empty PUnit}

/-- The variables of a new function. -/
theorem variables_pushed (m : Machine Empty PUnit) (c : Callable Empty) :
    (m.pushed c).heap.variables = m.heap.variables.extended c.variables := by
  refine Variables.ext (funext fun f => funext fun i => ?_) rfl rfl
    (by simp [Heap.variables, Variables.extended, pushed])
  simp only [Heap.variables, Variables.extended, function_pushed, Callable.variables_getElem?]
  by_cases hf : f.index = m.heap.functions.size
  · rw [if_pos hf, if_pos (show f = ⟨m.heap.functions.size⟩ from congrArg FnId.mk hf)]
  · rw [if_neg hf, if_neg (show ¬ f = ⟨m.heap.functions.size⟩ from fun h =>
      hf (congrArg FnId.index h))]

theorem moves_pushed (hm : m.Grounded) {c : Callable Empty} (hc : c.Within m.heap.cells.size) :
    m.Moves (m.pushed c) := by
  refine ⟨Nat.le_refl _, ⟨fun f => ?_, hm.stack, hm.chains⟩,
    [.closure (c.variables.map fun x => (x.1, .slot (some x.2)))], ?_⟩
  · rw [function_pushed]
    split
    · exact hc
    · exact hm.functions f
  · rw [variables_pushed]
    simp only [Variables.after, List.foldl_cons, List.foldl_nil, Variables.step,
      Variables.resolve_slots]

theorem newFunction_tracked (hm : m.Grounded) {c : Callable Empty}
    (hc : c.Within m.heap.cells.size) : Tracked id m (newFunction c m) := moves_pushed hm hc

theorem newFunctionVal_tracked (hm : m.Grounded) {c : Callable Empty}
    (hc : c.Within m.heap.cells.size) : Tracked id m (newFunctionVal c m) :=
  Tracked.bind (newFunction_tracked hm hc) fun _ _ _ h => Tracks.pure _ _ h.grounded

/-- **A join of the machine.** A function with another cell in place of one is what the store makes
of it. -/
theorem moves_join (hm : m.Grounded) {f g : FnId} {i j : Int} {x y : String × CellId}
    (hx : m.heap.variables.find f i = some x) (hy : m.heap.variables.find g j = some y) :
    ∃ c, (m.heap.function f).replaceUpvalue? i.toNat y.2 = some c ∧
      m.Moves { m with heap := { m.heap with
        functions := m.heap.functions.setIfInBounds f.index c } } ∧
      { m.heap with functions := m.heap.functions.setIfInBounds f.index c }.variables =
        m.heap.variables.rebound f i.toNat (x.1, y.2) := by
  obtain ⟨-, hbound⟩ := Variables.find_eq_some hx
  obtain ⟨-, hother⟩ := Variables.find_eq_some hy
  obtain ⟨c, hc, hwithin, hvariable⟩ :=
    Callable.replaceUpvalue?_some (hm.functions f) hbound y.2
  have hf : f.index < m.heap.functions.size := variable_made hbound
  have hfunction : ∀ h : FnId, ({ m.heap with
      functions := m.heap.functions.setIfInBounds f.index c } : Heap Empty).function h =
        if h = f then c else m.heap.function h := by
    intro h
    simp only [Heap.function, Array.getD_eq_getD_getElem?, Array.getElem?_setIfInBounds]
    by_cases hh : h = f
    · rw [if_pos hh, hh, if_pos rfl, if_pos hf]
      rfl
    · rw [if_neg hh, if_neg fun hi => hh (congrArg FnId.mk hi.symm)]
  have hvariables : { m.heap with
      functions := m.heap.functions.setIfInBounds f.index c }.variables =
        m.heap.variables.rebound f i.toNat (x.1, y.2) := by
    refine Variables.ext (funext fun h => funext fun k => ?_) rfl rfl Array.size_setIfInBounds
    simp only [Heap.variables, Variables.rebound, hfunction]
    by_cases hh : h = f
    · subst hh
      rw [if_pos rfl, hvariable]
      simp
    · rw [if_neg hh, if_neg fun hi => hh hi.1]
  refine ⟨c, hc, ⟨Nat.le_refl _, ⟨fun h => ?_, hm.stack, hm.chains⟩, [.join f i g j], ?_⟩,
    hvariables⟩
  · rw [hfunction]
    split
    · exact hwithin (hm.variable_within hother)
    · exact hm.functions h
  · simp only [Variables.after, List.foldl_cons, List.foldl_nil, Variables.step, hx, hy]
    exact hvariables

/-! ## Coroutines -/

theorem newCoroutine_tracks (body : Val) : Tracking (newCoroutine body : M Empty PUnit CoId) :=
  .modify fun m hm => .elsewhere rfl rfl ⟨hm.functions, hm.stack, fun co chain hco => by
    refine hm.chains co chain ?_
    simp only [id, Heap.coroutine, Array.getD_eq_getD_getElem?, Array.getElem?_push] at hco ⊢
    split at hco
    · cases hco
    · exact hco⟩

/-- A coroutine that is suspended has frames with cells of the heap. -/
theorem putCoroutine_tracked (hm : m.Grounded) (co : CoId) {c : Coroutine}
    (hc : ∀ chain, c = .suspended chain → ∀ link ∈ chain, link.Within m.heap.cells.size) :
    Tracked id m (putCoroutine co c m) := by
  refine Moves.elsewhere (m := m) rfl rfl ⟨hm.functions, hm.stack, fun d chain hd => ?_⟩
  simp only [id, Heap.coroutine, Array.getD_eq_getD_getElem?, Array.getElem?_setIfInBounds] at hd
  split at hd
  · split at hd
    · exact hc chain hd
    · cases hd
  · refine hm.chains d chain ?_
    rwa [Heap.coroutine, Array.getD_eq_getD_getElem?]

theorem transition_tracked (hm : m.Grounded) (co : CoId) {c : Coroutine}
    (hc : ∀ chain, c = .suspended chain → ∀ link ∈ chain, link.Within m.heap.cells.size) :
    Tracked id m (transition co c m) := by
  refine Tracked.bind (Tracks.get.bind (fun _ => .pure _) m hm) fun before t _ ht => ?_
  refine Tracked.bind (record_tracks _ t ht.grounded) fun _ u _ hu => ?_
  exact putCoroutine_tracked hu.grounded co fun chain hchain link hlink =>
    (hc chain hchain link hlink).mono (ht.trans hu).cells

theorem transition?_tracks (co : Option CoId) {c : Coroutine} (hc : ∀ chain, c ≠ .suspended chain) :
    Tracking (transition? co c : M Empty PUnit Unit) := by
  cases co with
  | some co => exact fun m hm => transition_tracked hm co fun chain h => (hc chain h).elim
  | none => exact .pure _

/-! ## The stack -/

/-- A change of the stack that puts no cells in slots but those of the heap. -/
theorem onStack_tracked {f : Stack → α × Stack} (hm : m.Grounded)
    (hf : ∀ i, ((f m.thread.stack).2.slot i).Within m.heap.cells.size) :
    Tracked id m (onStack f m) := by
  obtain ⟨t, ht⟩ := onStack_ok f m
  rw [ht]
  exact Moves.elsewhere (m := m) rfl rfl ⟨hm.functions, hf, hm.chains⟩

theorem setTop_tracks (v : View) (n : Nat) : Tracking (setTop v n : M Empty PUnit View) :=
  fun m hm => onStack_tracked hm fun i => by
    rw [View.setTop_snd, View.slot_growTo]
    exact hm.stack i

theorem fit_tracks (v : View) (n : Nat) : Tracking (fit v n : M Empty PUnit View) :=
  fun m hm => onStack_tracked hm fun i => by
    rw [View.slot_fit]
    split
    · trivial
    · exact hm.stack i

theorem clearRange_tracks (v : View) (first last : Nat) :
    Tracking (clearRange v first last : M Empty PUnit Unit) :=
  fun m hm => onStack_tracked hm fun i => by
    rw [View.slot_clearRange]
    split
    · trivial
    · exact hm.stack i

/-- Slots that are written back. -/
theorem restore_within {v : View} {s : Stack} {n : Nat} {saved : List Slot}
    (hs : ∀ i, (s.slot i).Within n) (hsaved : ∀ x ∈ saved, x.Within n) (i : Nat) :
    ((v.restore s saved).slot i).Within n := by
  rw [View.slot_restore]
  split
  · rename_i h
    have hlt : i - v.base < saved.length := by omega
    rw [List.getD_eq_getElem?_getD, List.getElem?_eq_getElem hlt]
    exact hsaved _ (List.getElem_mem hlt)
  · exact hs i

theorem restore_tracked (hm : m.Grounded) (v : View) {saved : List Slot}
    (hsaved : ∀ x ∈ saved, x.Within m.heap.cells.size) : Tracked id m (restore v saved m) :=
  onStack_tracked hm (restore_within hm.stack hsaved)

theorem load_tracks (v : View) (values : List Val) : Tracking (load v values : M Empty PUnit View) :=
  fun m hm => onStack_tracked hm fun i => by
    rw [View.load_snd]
    refine restore_within hm.stack (fun x hx => ?_) i
    obtain ⟨_, -, rfl⟩ := List.mem_map.1 hx
    trivial

theorem insertFront_tracks (v : View) (x : Val) :
    Tracking (insertFront v x : M Empty PUnit View) :=
  fun m hm => onStack_tracked hm fun i => by
    rw [View.slot_insertFront]
    split
    · trivial
    · split
      · exact hm.stack _
      · exact hm.stack i

theorem putSlot_tracked (hm : m.Grounded) (v : View) (i : Nat) {x : Slot}
    (hx : x.Within m.heap.cells.size) : Tracked id m (putSlot v i x m) :=
  onStack_tracked hm fun j => by
    show ((m.thread.stack.put (v.base + i) x).slot j).Within _
    rw [Stack.slot_put]
    split
    · exact hx
    · exact hm.stack j

theorem putValue_tracks (v : View) (i : Nat) (x : Val) :
    Tracking (putValue v i x : M Empty PUnit Unit) :=
  fun _ hm => putSlot_tracked hm v i (x := .value x) trivial

theorem slotAt_tracks (v : View) (i : Nat) : Tracking (slotAt v i : M Empty PUnit Slot) :=
  Tracks.get.bind fun _ => .pure _

theorem valueAt_tracks (v : View) (i : Nat) : Tracking (valueAt v i : M Empty PUnit Val) :=
  Tracks.get.bind fun _ => .pure _

theorem valuesOf_tracks (v : View) (first last : Nat) :
    Tracking (valuesOf v first last : M Empty PUnit (List Val)) :=
  Tracks.get.bind fun _ => .pure _

theorem valuesFrom_tracks (v : View) (first : Nat) :
    Tracking (valuesFrom v first : M Empty PUnit (List Val)) := valuesOf_tracks v first v.top

theorem store_tracks (v : View) (i : Nat) (x : Val) : Tracking (store v i x : M Empty PUnit Unit) :=
  (slotAt_tracks v i).bind fun slot => by
    cases slot with
    | cell c => exact putCell_tracks c x
    | value => exact putValue_tracks v i x

/-- What is done with a new cell. -/
theorem newCell_tracked (hm : m.Grounded) (x : Val) {k : CellId → M Empty PUnit α}
    (hk : ∀ c t, t.Grounded → (Slot.cell c).Within t.heap.cells.size → Tracked id t (k c t)) :
    Tracked id m ((newCell x >>= k) m) :=
  Tracked.bind (newCell_tracks x m hm) fun c t hc ht => by
    cases hc
    exact hk _ _ ht.grounded (by show m.heap.cells.size < (m.heap.cells.push x).size; simp)

theorem reify_tracks (v : View) (i : Nat) : Tracking (reify v i : M Empty PUnit CellId) :=
  (valueAt_tracks v i).bind fun x _ hm => newCell_tracked hm x fun c _ ht hc =>
    (putSlot_tracked ht v i hc).bind fun _ u _ hu => Tracks.pure c u hu.grounded

end Machine

end ScriptCore
