import ScriptCore.Engine
import ScriptCore.Proofs.Stack
import ScriptCore.Proofs.Tables

/-!
# Two runs in step

`Paired E R x y Q`: from states related by `R`, the steps `x` and `y` end in the same way, and
neither is left by a suspension. `InStep R V x y` is the case of one relation throughout, with
results related by `V`. Steps that run in step compose (`InStep.bind`), so a function is shown to
run in step with itself by following its text.

The states that are compared have the same objects and output (`Kin`); their stacks, their
coroutines and what watches them may differ. A relation that says no more of the rest than that it
stays as it is, is `Closed`: every primitive step that leaves the stack and the counters alone keeps
it. A step that reads the result channel runs in step only where the channels are known to be equal
(`Hears`), as they are after a step that has written them (`Answers`).
-/

namespace ScriptCore

section Bind

variable {ε σ α β : Type} {x : EStateM ε σ α} {f : α → EStateM ε σ β} {s t : σ}

theorem bind_of_ok {a : α} (h : x s = .ok a t) : (x >>= f) s = f a t := by
  show EStateM.bind x f s = _
  unfold EStateM.bind
  rw [h]

theorem bind_of_error {e : ε} (h : x s = .error e t) : (x >>= f) s = .error e t := by
  show EStateM.bind x f s = _
  unfold EStateM.bind
  rw [h]

/-- Steps that end alike go on alike. -/
theorem bind_at {y : EStateM ε σ α} (h : x s = y t) : (x >>= f) s = (y >>= f) t := by
  show EStateM.bind x f s = EStateM.bind y f t
  unfold EStateM.bind
  rw [h]

theorem ok_of_bind {b : β} (h : (x >>= f) s = .ok b t) :
    ∃ a u, x s = .ok a u ∧ f a u = .ok b t := by
  cases hx : x s with
  | ok a u => exact ⟨a, u, rfl, (bind_of_ok hx).symm.trans h⟩
  | error e u => cases (bind_of_error hx).symm.trans h

theorem error_of_bind {e : ε} (h : (x >>= f) s = .error e t) :
    x s = .error e t ∨ ∃ a u, x s = .ok a u ∧ f a u = .error e t := by
  cases hx : x s with
  | ok a u => exact .inr ⟨a, u, rfl, (bind_of_ok hx).symm.trans h⟩
  | error e' u =>
    cases (bind_of_error hx).symm.trans h
    exact .inl rfl

end Bind

/-- An ending other than a suspension. -/
def Unwind.Plain : Unwind → Prop
  | .suspend _ => False
  | _ => True

/-- An ending that a step can bring about by itself. Only a yield suspends, and only entering a
function finds the stack too deep. -/
def Unwind.Own : Unwind → Prop
  | .suspend _ | .fault (.stackOverflow _) => False
  | _ => True

theorem Unwind.Own.plain {e : Unwind} (h : e.Own) : e.Plain := by
  cases e with
  | suspend s => exact h.elim
  | fault | overflow | exhausted => exact trivial

/-! ## Running in step -/

section InStep

variable {σ τ α β γ δ : Type} {E R : σ → τ → Prop}

/-- Two endings of the same kind: with results, or with one cause of their own. -/
def SameEnd (E : σ → τ → Prop) (Q : α → β → σ → τ → Prop) :
    EStateM.Result Unwind σ α → EStateM.Result Unwind τ β → Prop
  | .ok u a, .ok v b => Q u v a b
  | .error e a, .error e' b => e = e' ∧ e.Own ∧ E a b
  | _, _ => False

/-- From states related by `R` two steps end in the same way: with results and states related by
`Q`, or early, in states related by `E`. -/
def Paired (E R : σ → τ → Prop) (x : EStateM Unwind σ α) (y : EStateM Unwind τ β)
    (Q : α → β → σ → τ → Prop) : Prop := ∀ a b, R a b → SameEnd E Q (x a) (y b)

/-- Two steps keep `R`, however they end, and have results related by `V`. -/
def InStep (R : σ → τ → Prop) (V : α → β → Prop) (x : EStateM Unwind σ α)
    (y : EStateM Unwind τ β) : Prop := Paired R R x y fun u v a b => V u v ∧ R a b

namespace Paired

variable {Q Q' : α → β → σ → τ → Prop} {W : γ → δ → σ → τ → Prop}
  {x : EStateM Unwind σ α} {y : EStateM Unwind τ β}

theorem pure {u : α} {v : β} (h : ∀ a b, R a b → Q u v a b) :
    Paired E R (pure u) (pure v) Q := fun a b hR => h a b hR

theorem throw {e : Unwind} (he : e.Own) (h : ∀ a b, R a b → E a b) :
    Paired E R (throw e) (throw e) Q := fun a b hR => ⟨rfl, he, h a b hR⟩

theorem bind {f : α → EStateM Unwind σ γ} {g : β → EStateM Unwind τ δ} (hx : Paired E R x y Q)
    (hf : ∀ u v, Paired E (Q u v) (f u) (g v) W) : Paired E R (x >>= f) (y >>= g) W := by
  intro a b hR
  have h := hx a b hR
  show SameEnd E W (EStateM.bind x f a) (EStateM.bind y g b)
  unfold EStateM.bind
  cases hxa : x a <;> cases hyb : y b <;> rw [hxa, hyb] at h
  · exact hf _ _ _ _ h
  · exact h.elim
  · exact h.elim
  · exact h

/-- The rule of consequence. -/
theorem mono {E' R' : σ → τ → Prop} (h : Paired E R x y Q) (hR : ∀ a b, R' a b → R a b)
    (hE : ∀ a b, E a b → E' a b) (hQ : ∀ u v a b, Q u v a b → Q' u v a b) :
    Paired E' R' x y Q' := by
  intro a b hab
  have := h a b (hR a b hab)
  cases hxa : x a <;> cases hyb : y b <;> rw [hxa, hyb] at this
  · exact hQ _ _ _ _ this
  · exact this.elim
  · exact this.elim
  · exact ⟨this.1, this.2.1, hE _ _ this.2.2⟩

end Paired

namespace InStep

variable {V : α → β → Prop} {W : γ → δ → Prop} {x : EStateM Unwind σ α} {y : EStateM Unwind τ β}

theorem pure {u : α} {v : β} (h : V u v) : InStep R V (pure u) (pure v) := fun _ _ hR => ⟨h, hR⟩

theorem throw {e : Unwind} (h : e.Own) : InStep R V (throw e) (throw e) :=
  fun _ _ hR => ⟨rfl, h, hR⟩

theorem bind {f : α → EStateM Unwind σ γ} {g : β → EStateM Unwind τ δ} (hx : InStep R V x y)
    (hf : ∀ u v, V u v → InStep R W (f u) (g v)) : InStep R W (x >>= f) (y >>= g) :=
  Paired.bind hx fun u v a b h => hf u v h.1 a b h.2

/-- The rule for steps with equal results. -/
theorem seq {y : EStateM Unwind τ α} {f : α → EStateM Unwind σ γ} {g : α → EStateM Unwind τ δ}
    (hx : InStep R Eq x y) (hf : ∀ u, InStep R W (f u) (g u)) :
    InStep R W (x >>= f) (y >>= g) := hx.bind fun u _ h => h ▸ hf u

end InStep

end InStep

/-! ## What two machines share -/

variable {F S : Type}

/-- A function of a heap and a later form of it: a closure keeps its body and its number of
cells. -/
inductive Callable.Kept : Callable F → Callable F → Prop
  | same (c : Callable F) : Kept c c
  | rebound (proto : Proto) (cells cells' : Array CellId) (size : cells'.size = cells.size) :
    Kept (.closure proto cells) (.closure proto cells')

theorem Callable.Kept.trans {c d e : Callable F} (h : Kept c d) (k : Kept d e) : Kept c e := by
  cases h with
  | same => exact k
  | rebound proto cells cells' size =>
    cases k with
    | same => exact .rebound _ _ _ size
    | rebound _ _ _ size' => exact .rebound _ _ _ (size'.trans size)

theorem Callable.kept_of_replaceUpvalue? {c d : Callable F} {i : Nat} {cell : CellId}
    (h : c.replaceUpvalue? i cell = some d) : c.Kept d := by
  cases c <;> simp only [Callable.replaceUpvalue?, reduceCtorEq] at h
  split at h
  · cases h
    exact .rebound _ _ _ Array.size_setIfInBounds
  · cases h

/-- What a step on objects and results leaves as it is: coroutines, counters, the limits, the
host, and the bodies of functions. -/
structure Machine.Undisturbed (m m' : Machine F S) : Prop where
  coroutines : m'.heap.coroutines = m.heap.coroutines
  depth : m'.thread.depth = m.thread.depth
  boundaries : m'.thread.boundaries = m.thread.boundaries
  current : m'.thread.current = m.thread.current
  globals : m'.world.globals = m.world.globals
  config : m'.world.config = m.world.config
  host : m'.host = m.host
  tables : ∀ t, (m.heap.table t).Becomes (m'.heap.table t)
  grown : m.heap.functions.size ≤ m'.heap.functions.size
  functions : ∀ f : FnId, f.index < m.heap.functions.size →
    (m.heap.function f).Kept (m'.heap.function f)

namespace Machine.Undisturbed

theorem refl (m : Machine F S) : m.Undisturbed m :=
  ⟨rfl, rfl, rfl, rfl, rfl, rfl, rfl, fun _ => .refl, Nat.le_refl _, fun _ _ => .same _⟩

theorem trans {m m' m'' : Machine F S} (h : m.Undisturbed m') (k : m'.Undisturbed m'') :
    m.Undisturbed m'' where
  coroutines := k.coroutines.trans h.coroutines
  depth := k.depth.trans h.depth
  boundaries := k.boundaries.trans h.boundaries
  current := k.current.trans h.current
  globals := k.globals.trans h.globals
  config := k.config.trans h.config
  host := k.host.trans h.host
  tables t := (h.tables t).trans (k.tables t)
  grown := Nat.le_trans h.grown k.grown
  functions f hf := (h.functions f hf).trans (k.functions f (Nat.lt_of_lt_of_le hf h.grown))

end Machine.Undisturbed

/-- A step that leaves the stack alone as well. -/
structure Machine.Still (m m' : Machine F S) : Prop extends m.Undisturbed m' where
  stack : m'.thread.stack = m.thread.stack

/-- A step that makes no function either. -/
structure Machine.Steady (m m' : Machine F S) : Prop extends m.Still m' where
  count : m'.heap.functions.size = m.heap.functions.size

/-- A machine with one more function. -/
def Machine.pushed (m : Machine F S) (c : Callable F) : Machine F S :=
  { m with heap := { m.heap with functions := m.heap.functions.push c } }

namespace Machine.Steady

variable (m : Machine F S)

theorem refl : m.Steady m := ⟨⟨.refl m, rfl⟩, rfl⟩

theorem ofTrace (t : Option (Array TraceEvent)) : m.Steady { m with trace := t } :=
  ⟨⟨{ Undisturbed.refl m with }, rfl⟩, rfl⟩

theorem ofJournal (j : Option (Array Write)) : m.Steady { m with journal := j } :=
  ⟨⟨{ Undisturbed.refl m with }, rfl⟩, rfl⟩

theorem ofOutput (s : String) : m.Steady { m with output := s } :=
  ⟨⟨{ Undisturbed.refl m with }, rfl⟩, rfl⟩

theorem ofResults (r : Results) : m.Steady { m with thread := { m.thread with results := r } } :=
  ⟨⟨{ Undisturbed.refl m with }, rfl⟩, rfl⟩

theorem ofTypes (f : Kind → Option TableId) :
    m.Steady { m with world := { m.world with typeMetatable := f } } :=
  ⟨⟨{ Undisturbed.refl m with }, rfl⟩, rfl⟩

theorem ofCells (cells : Array Val) :
    m.Steady { m with heap := { m.heap with cells := cells } } :=
  ⟨⟨{ Undisturbed.refl m with }, rfl⟩, rfl⟩

/-- A new table takes the place of no other. -/
theorem ofTable : m.Steady { m with heap := { m.heap with tables := m.heap.tables.push .empty } } where
  toUndisturbed := { Undisturbed.refl m with
    tables := fun t => by
      simp only [Heap.table, Array.getD_eq_getD_getElem?, Array.getElem?_push]
      by_cases ht : t.index = m.heap.tables.size
      · rw [if_pos ht, Array.getElem?_eq_none (Nat.le_of_eq ht.symm)]
        exact .refl
      · rw [if_neg ht]
        exact .refl }
  stack := rfl
  count := rfl

/-- A table is changed by writes. -/
theorem ofWrites (t : TableId) {f : Table → Table} (hf : ∀ u : Table, u.Becomes (f u)) :
    m.Steady { m with heap := { m.heap with tables := m.heap.tables.modify t.index f } } where
  toUndisturbed := { Undisturbed.refl m with
    tables := fun u => by
      simp only [Heap.table, Array.getD_eq_getD_getElem?, Array.getElem?_modify]
      by_cases hu : t.index = u.index
      · rw [if_pos hu]
        cases m.heap.tables[u.index]? with
        | none => exact .refl
        | some v => exact hf v
      · rw [if_neg hu]
        exact .refl }
  stack := rfl
  count := rfl

/-- A function may get other cells. -/
theorem ofRebind (f : FnId) (c : Callable F) (h : (m.heap.function f).Kept c) :
    m.Steady { m with heap := { m.heap with
      functions := m.heap.functions.setIfInBounds f.index c } } where
  toUndisturbed := { Undisturbed.refl m with
    grown := by simp
    functions := fun g hg => by
      simp only [Heap.function, Array.getD_eq_getD_getElem?, Array.getElem?_setIfInBounds] at h ⊢
      by_cases hfg : f.index = g.index
      · rw [if_pos hfg, if_pos (by omega), ← hfg]; exact h
      · rw [if_neg hfg]; exact .same _ }
  stack := rfl
  count := Array.size_setIfInBounds

/-- Every function keeps its body, also where there is none. -/
theorem kept {m m' : Machine F S} (h : m.Steady m') (f : FnId) :
    (m.heap.function f).Kept (m'.heap.function f) := by
  by_cases hf : f.index < m.heap.functions.size
  · exact h.functions f hf
  · have hnone : ∀ m : Machine F S, ¬ f.index < m.heap.functions.size →
        m.heap.function f = default := fun m hm => by
      rw [Heap.function, Array.getD_eq_getD_getElem?,
        Array.getElem?_eq_none (Nat.le_of_not_lt hm)]
      rfl
    rw [hnone m hf, hnone m' (h.count ▸ hf)]
    exact .same _

end Machine.Steady

namespace Machine.Still

variable (m : Machine F S)

theorem refl : m.Still m := (Steady.refl m).toStill

theorem trans {m m' m'' : Machine F S} (h : m.Still m') (k : m'.Still m'') : m.Still m'' :=
  ⟨h.toUndisturbed.trans k.toUndisturbed, k.stack.trans h.stack⟩

theorem ofTrace (t : Option (Array TraceEvent)) : m.Still { m with trace := t } :=
  (Steady.ofTrace m t).toStill

/-- A new function takes the place of no other. -/
theorem ofPush (c : Callable F) : m.Still (m.pushed c) where
  toUndisturbed := { Undisturbed.refl m with
    grown := by simp [pushed]
    functions := fun f hf => by
      simp only [pushed, Heap.function, Array.getD_eq_getD_getElem?, Array.getElem?_push,
        Nat.ne_of_lt hf, if_false]
      exact .same _ }
  stack := rfl

end Machine.Still

section Core

variable [HostFunction F]

/-- Bodies that are declared alike; what they do may differ. -/
structure Proto.Alike (p q : Proto) : Prop where
  name : p.name = q.name
  layout : p.layout = q.layout
  upvalues : p.upvalues = q.upvalues

theorem Proto.Alike.refl (p : Proto) : p.Alike p := ⟨rfl, rfl, rfl⟩

/-- Functions that differ at most in what a call of them does: a host function may stand in for
the function that yields, and closures over the same cells may have bodies that are declared
alike. -/
inductive Callable.Alike : Callable F → Callable F → Prop
  | same (c : Callable F) : Alike c c
  | bodies {p q : Proto} (cells : Array CellId) (h : p.Alike q) :
    Alike (.closure p cells) (.closure q cells)
  | standIn (h : F) (native : HostFunction.isNative h = true)
    (closed : ∀ i, HostFunction.upvalue? h i = none)
    (arity : HostFunction.arity h = .variadic) : Alike (.builtin .yield) (.host h)

theorem Callable.Alike.isNative_eq {c d : Callable F} (h : c.Alike d) : c.isNative = d.isNative := by
  cases h with
  | same | bodies => rfl
  | standIn _ native => exact native.symm

theorem Callable.Alike.upvalue?_eq {c d : Callable F} (h : c.Alike d) (i : Nat) :
    c.upvalue? i = d.upvalue? i := by
  cases h with
  | same => rfl
  | bodies cells h => simp only [Callable.upvalue?, h.upvalues]
  | standIn _ _ closed => exact (closed i).symm

theorem Callable.Alike.arity_eq {c d : Callable F} (h : c.Alike d) : c.arity = d.arity := by
  cases h with
  | same => rfl
  | bodies _ h => exact congrArg Layout.arity h.layout
  | standIn _ _ _ arity => exact arity.symm

/-- A captured variable is bound to another cell in both of two alike functions, or in neither. -/
theorem Callable.Alike.replaceUpvalue? {c d : Callable F} (h : c.Alike d) (i : Nat)
    (cell : CellId) :
    (c.replaceUpvalue? i cell = none ∧ d.replaceUpvalue? i cell = none) ∨
      ∃ c' d', c.replaceUpvalue? i cell = some c' ∧ d.replaceUpvalue? i cell = some d' ∧
        c'.Alike d' := by
  cases h with
  | same =>
    cases hc : c.replaceUpvalue? i cell with
    | none => exact .inl ⟨rfl, rfl⟩
    | some c' => exact .inr ⟨c', c', rfl, rfl, .same c'⟩
  | bodies cells h =>
    by_cases hi : i < cells.size
    · exact .inr ⟨_, _, if_pos hi, if_pos hi, .bodies _ h⟩
    · exact .inl ⟨if_neg hi, if_neg hi⟩
  | standIn => exact .inl ⟨rfl, rfl⟩

/-- Limits that differ at most in the slots of a new stack. -/
structure Config.Alike (c d : Config) : Prop where
  depth : c.maxCallDepth = d.maxCallDepth
  chain : c.maxMetaChain = d.maxMetaChain

/-- Worlds with alike limits that are otherwise the same. -/
structure World.Alike (v w : World) : Prop where
  globals : v.globals = w.globals
  types : v.typeMetatable = w.typeMetatable
  limits : v.config.Alike w.config

theorem World.Alike.refl (w : World) : w.Alike w := ⟨rfl, rfl, rfl, rfl⟩

namespace Machine

/-- Two machines with the same objects and output in alike worlds. Of their functions one may be a
stand-in for the other. -/
structure Kin (a b : Machine F S) : Prop where
  tables : a.heap.tables = b.heap.tables
  cells : a.heap.cells = b.heap.cells
  count : a.heap.functions.size = b.heap.functions.size
  functions : ∀ f, (a.heap.function f).Alike (b.heap.function f)
  world : a.world.Alike b.world
  output : a.output = b.output
  journal : a.journal = b.journal

/-- Two machines that have the same limits, results and counters, too. -/
structure Core (a b : Machine F S) : Prop extends Kin a b where
  config : a.world.config = b.world.config
  results : a.thread.results = b.thread.results
  depth : a.thread.depth = b.thread.depth
  boundaries : a.thread.boundaries = b.thread.boundaries

theorem Kin.refl (m : Machine F S) : m.Kin m :=
  ⟨rfl, rfl, rfl, fun _ => .same _, .refl _, rfl, rfl⟩

theorem Core.refl (m : Machine F S) : m.Core m := ⟨.refl m, rfl, rfl, rfl, rfl⟩

theorem Core.world_eq {a b : Machine F S} (h : a.Core b) : a.world = b.world := by
  obtain ⟨hglobals, htypes, -⟩ := h.world
  have hconfig := h.config
  generalize a.world = v, b.world = w at hglobals htypes hconfig
  cases v
  cases w
  congr

theorem Kin.table_eq {a b : Machine F S} (h : a.Kin b) (t : TableId) :
    a.heap.table t = b.heap.table t := by rw [Heap.table, h.tables]; rfl

theorem Kin.cell_eq {a b : Machine F S} (h : a.Kin b) (c : CellId) :
    a.heap.cell c = b.heap.cell c := by rw [Heap.cell, h.cells]; rfl

theorem Kin.text_eq {a b : Machine F S} (h : a.Kin b) (v : Val) :
    a.heap.text v = b.heap.text v := by
  cases v <;> simp only [Heap.text]
  rw [(h.functions _).isNative_eq]

/-- Machines of a closed relation are kin, and steady steps on either side keep the relation as
long as they keep the machines kin and do not part equal results. -/
structure Closed (R : Machine F S → Machine F S → Prop) : Prop where
  kin : ∀ {a b}, R a b → a.Kin b
  steady : ∀ {a b a' b'}, R a b → a.Steady a' → b.Steady b' → a'.Kin b' →
    (a.thread.results = b.thread.results → a'.thread.results = b'.thread.results) → R a' b'

/-- Related machines have the same results. -/
def Hears (R : Machine F S → Machine F S → Prop) : Prop :=
  ∀ a b, R a b → a.thread.results = b.thread.results

theorem Core.steady {a b a' b' : Machine F S} (h : a.Core b) (ha : a.Steady a') (hb : b.Steady b')
    (hkin : a'.Kin b')
    (hresults : a.thread.results = b.thread.results → a'.thread.results = b'.thread.results) :
    a'.Core b' where
  toKin := hkin
  config := ha.config.trans (h.config.trans hb.config.symm)
  results := hresults h.results
  depth := ha.depth.trans (h.depth.trans hb.depth.symm)
  boundaries := ha.boundaries.trans (h.boundaries.trans hb.boundaries.symm)

/-- Related machines remain so when they make given functions. -/
def Admits (R : Machine F S → Machine F S → Prop) (c d : Callable F) : Prop :=
  ∀ a b, R a b → R (a.pushed c) (b.pushed d)

/-- Machines that make one more function are kin as before. -/
theorem Kin.pushed {a b : Machine F S} (h : a.Kin b) {c d : Callable F} (hcd : c.Alike d) :
    (a.pushed c).Kin (b.pushed d) :=
  { h with
    count := by simp [Machine.pushed, h.count]
    functions := fun f => by
      simp only [Machine.pushed, Heap.function, Array.getD_eq_getD_getElem?, Array.getElem?_push,
        ← h.count]
      by_cases hf : f.index = a.heap.functions.size
      · simp only [hf, if_true]; exact hcd
      · simp only [hf, if_false]
        simpa only [Heap.function, Array.getD_eq_getD_getElem?] using h.functions f }

/-- The live slots of two windows are equal. -/
structure Shares (R : Machine F S → Machine F S → Prop) (v w : View) : Prop where
  top : v.top = w.top
  slot : ∀ {a b}, R a b → ∀ i < v.top, v.slot a.thread.stack i = w.slot b.thread.stack i

end Machine

end Core

/-! ## Steps that give results -/

/-- No tail call is pending. -/
def Results.Settled (r : Results) : Prop := r.pending = none

/-- Two steps keep `R`, however they end, and leave equal results if they end well. -/
def Answers (R : Machine F S → Machine F S → Prop) (x y : M F S Unit) : Prop :=
  Paired R R x y fun _ _ a b =>
    R a b ∧ a.thread.results = b.thread.results ∧ a.thread.results.Settled

section Answers

variable {R : Machine F S → Machine F S → Prop} {α : Type} {x y : M F S Unit}

theorem Answers.inStep (h : Answers R x y) : InStep R Eq x y :=
  Paired.mono h (fun _ _ h => h) (fun _ _ h => h) fun _ _ _ _ h => ⟨rfl, h.1⟩

theorem Answers.throw {e : Unwind} (he : e.Own) :
    Answers R (throw e : M F S Unit) (throw e) := Paired.throw he fun _ _ h => h

theorem InStep.bindAnswers {β : Type} {V : α → β → Prop} {x : M F S α} {y : M F S β}
    {f : α → M F S Unit} {g : β → M F S Unit} (hx : InStep R V x y)
    (hf : ∀ u v, V u v → Answers R (f u) (g v)) : Answers R (x >>= f) (y >>= g) :=
  Paired.bind hx fun u v a b h => hf u v h.1 a b h.2

/-- The rule for steps with equal values. -/
theorem InStep.answers {x y : M F S α} {f g : α → M F S Unit} (hx : InStep R Eq x y)
    (hf : ∀ u, Answers R (f u) (g u)) : Answers R (x >>= f) (y >>= g) :=
  hx.bindAnswers fun u _ h => h ▸ hf u

end Answers

/-! ## Values without a handler -/

/-- A value is shown by its name and its address, if it has both. -/
def Base.addressed [HostFunction F] (v : Val) (name : Option String) : M F S String :=
  match name, v.address? with
  | some name, some a => return name ++ ": " ++ addressText a
  | _, _ => return (← get).heap.text v

/-- How a value is shown that has no handler for it. It has its name from its metatable. -/
def Base.named [HostFunction F] (v : Val) : M F S String := do
  let name ← match ← Machine.metatableOf v with
    | some t => do pure ((← Machine.tableAt t).getStr Event.name.key).toString?
    | none => pure none
  addressed v name

/-! ## Primitive steps -/

namespace Machine

/-- A report changes only the trace. -/
theorem record_ok (m : Machine F S) (e : Unit → TraceEvent) :
    ∃ t, record e m = .ok () { m with trace := t } := by
  unfold record
  split
  · exact ⟨m.trace, rfl⟩
  · exact ⟨_, rfl⟩

/-- A note changes only the journal. -/
theorem note_ok (m : Machine F S) (w : Write) :
    note w m = .ok () { m with journal := m.journal.map (·.push w) } := by
  unfold note
  split
  · rename_i h; rw [h]; exact congrArg (EStateM.Result.ok ()) (by cases m; simp_all)
  · rename_i h; rw [h]; rfl

section Ending

variable {R : Machine F S → Machine F S → Prop} {α β : Type}

theorem fail_inStep {V : α → β → Prop} (f : Fault) (hf : (Unwind.fault f).Own) :
    InStep R V (fail f) (fail f) := InStep.throw (R := R) hf

theorem fail_answers (f : Fault) (hf : (Unwind.fault f).Own) :
    Answers R (fail f) (fail f) := .throw hf

theorem violate_answers (v : Violation) : Answers R (violate v) (violate v) := fail_answers _ trivial

theorem violate_inStep {V : α → β → Prop} (v : Violation) : InStep R V (violate v) (violate v) :=
  fail_inStep _ trivial

theorem orFail_inStep {r : Except Fault α} (h : ∀ f, r = .error f → (Unwind.fault f).Own) :
    InStep R Eq (orFail r) (orFail r) := by
  cases r with
  | ok a => exact .pure rfl
  | error f => exact fail_inStep f (h f rfl)

theorem orViolate_inStep (r : Except Violation α) : InStep R Eq (orViolate r) (orViolate r) := by
  cases r with
  | ok a => exact .pure rfl
  | error v => exact violate_inStep v

theorem orOverflow_inStep (r : Option α) : InStep R Eq (orOverflow r) (orOverflow r) := by
  cases r with
  | some a => exact .pure rfl
  | none => exact InStep.throw (R := R) trivial

/-- A reading step runs in step with one that reads something related. -/
theorem read_inStep {V : α → β → Prop} {f : Machine F S → α} {g : Machine F S → β}
    (h : ∀ a b, R a b → V (f a) (g b)) :
    InStep R V (do return f (← get)) (do return g (← get)) :=
  fun a b hab => ⟨h a b hab, hab⟩

end Ending

section Hears

variable {R : Machine F S → Machine F S → Prop} {α : Type} (hears : Hears R)

include hears

theorem hear_inStep :
    InStep R (fun a b => a.thread.results = b.thread.results) (get : M F S (Machine F S)) get :=
  fun a b h => ⟨hears a b h, h⟩

/-- The channel is read the same. -/
theorem orViolate_results_inStep (f : Results → Except Violation α) :
    InStep R Eq (do orViolate (f (← get).thread.results)) (do orViolate (f (← get).thread.results)) :=
  (hear_inStep hears).bind fun a b h => by rw [h]; exact orViolate_inStep _

theorem result_inStep (i : Nat) : InStep R Eq (result i : M F S Val) (result i) :=
  orViolate_results_inStep hears (·.get i)

theorem resultList_inStep : InStep R Eq (resultList : M F S (List Val)) resultList :=
  orViolate_results_inStep hears Results.read

end Hears

section Primitive

variable [HostFunction F] {R : Machine F S → Machine F S → Prop} {α β : Type}
variable (hR : Closed R)

include hR

theorem get_inStep : InStep R Kin get get := fun _ _ h => ⟨hR.kin h, h⟩

theorem tableAt_inStep (t : TableId) : InStep R Eq (tableAt t) (tableAt t) :=
  read_inStep fun _ _ h => (hR.kin h).table_eq t

theorem cellAt_inStep (c : CellId) : InStep R Eq (cellAt c) (cellAt c) :=
  read_inStep fun _ _ h => (hR.kin h).cell_eq c

theorem functionAt_inStep (f : FnId) : InStep R Callable.Alike (functionAt f) (functionAt f) :=
  read_inStep fun _ _ h => (hR.kin h).functions f

theorem config_inStep : InStep R Config.Alike (config : M F S Config) config :=
  read_inStep fun _ _ h => (hR.kin h).world.limits

theorem globals_inStep : InStep R Eq (globals : M F S TableId) globals :=
  read_inStep fun _ _ h => (hR.kin h).world.globals

/-- A step that changes related machines alike. -/
theorem modifyGet_inStep {f g : Machine F S → α × Machine F S}
    (h : ∀ a b, a.Kin b → (f a).1 = (g b).1 ∧ a.Steady (f a).2 ∧ b.Steady (g b).2 ∧
      (f a).2.Kin (g b).2 ∧
      (a.thread.results = b.thread.results → (f a).2.thread.results = (g b).2.thread.results)) :
    InStep R Eq (modifyGet f) (modifyGet g) := by
  intro a b hab
  obtain ⟨hv, ha, hb, hc, hr⟩ := h a b (hR.kin hab)
  exact ⟨hv, hR.steady hab ha hb hc hr⟩

/-- Reports are not compared. -/
theorem record_inStep (e e' : Unit → TraceEvent) :
    InStep R Eq (record e : M F S Unit) (record e') := by
  intro a b hab
  obtain ⟨s, hs⟩ := record_ok a e
  obtain ⟨t, ht⟩ := record_ok b e'
  rw [hs, ht]
  exact ⟨rfl, hR.steady hab (.ofTrace a s) (.ofTrace b t) { hR.kin hab with } id⟩

theorem note_inStep (w : Write) : InStep R Eq (note w : M F S Unit) (note w) := by
  intro a b hab
  have hc := hR.kin hab
  rw [note_ok, note_ok]
  exact ⟨rfl, hR.steady hab (.ofJournal a _) (.ofJournal b _)
    { hc with journal := by rw [hc.journal] } id⟩

theorem setChannel_inStep (r : Results) : InStep R Eq (setChannel r : M F S Unit) (setChannel r) :=
  modifyGet_inStep hR fun a b hc =>
    ⟨rfl, .ofResults a r, .ofResults b r, { hc with }, fun _ => rfl⟩

theorem giveAll_inStep (values : List Val) :
    InStep R Eq (giveAll values : M F S Unit) (giveAll values) := setChannel_inStep hR _

theorem give_inStep (v : Val) : InStep R Eq (give v : M F S Unit) (give v) := giveAll_inStep hR _

theorem requestTailCall_inStep (target : Val) (args : List Val) :
    InStep R Eq (requestTailCall target args : M F S Unit) (requestTailCall target args) :=
  setChannel_inStep hR _

/-- A step that writes the channel leaves equal results, whatever they were before. -/
theorem setChannel_writes (r : Results) :
    Paired R R (setChannel r : M F S Unit) (setChannel r) fun _ _ a b =>
      R a b ∧ a.thread.results = r ∧ b.thread.results = r := fun _ _ hab =>
  ⟨hR.steady hab (.ofResults _ r) (.ofResults _ r) { hR.kin hab with } fun _ => rfl, rfl, rfl⟩

theorem giveAll_answers (values : List Val) :
    Answers R (giveAll values : M F S Unit) (giveAll values) :=
  Paired.mono (setChannel_writes hR (.ofValues values)) (fun _ _ h => h) (fun _ _ h => h)
    fun _ _ _ _ ⟨h, ha, hb⟩ => ⟨h, ha.trans hb.symm, ha ▸ rfl⟩

theorem give_answers (v : Val) : Answers R (give v : M F S Unit) (give v) := giveAll_answers hR _

theorem takeTailCall_inStep (hears : Hears R) :
    InStep R Eq (onResults Results.takeTailCall : M F S (Option Val))
      (onResults Results.takeTailCall) := fun a b hab =>
  ⟨congrArg Results.pending (hears a b hab),
    hR.steady hab (.ofResults a _) (.ofResults b _) { hR.kin hab with }
      (congrArg fun r => (Results.takeTailCall r).2)⟩

theorem prependResult_answers (hears : Hears R) (v : Val) :
    Answers R (prependResult v : M F S Unit) (prependResult v) :=
  (hear_inStep hears).bindAnswers fun a b h => by
    rw [h]
    unfold Results.prepend
    cases b.thread.results.read with
    | error _ => exact violate_answers _
    | ok values => exact giveAll_answers hR (v :: values)

theorem takeResults_inStep (hears : Hears R) :
    InStep R Eq (takeResults : M F S (List Val)) takeResults :=
  (hear_inStep hears).bind fun a b h => by
    rw [h]
    exact (orViolate_inStep _).seq fun r => (setChannel_inStep hR r.2).seq fun _ => .pure rfl

theorem emit_inStep (s : String) : InStep R Eq (emit s : M F S Unit) (emit s) :=
  modifyGet_inStep hR fun a b hc =>
    ⟨rfl, .ofOutput a _, .ofOutput b _, { hc with output := congrArg (· ++ s) hc.output }, id⟩

/-! ## Objects -/

theorem newTable_inStep : InStep R Eq (newTable : M F S TableId) newTable :=
  modifyGet_inStep hR fun a b hc =>
    ⟨congrArg (fun t : Array Table => TableId.mk t.size) hc.tables, .ofTable a, .ofTable b,
      { hc with tables := congrArg (·.push .empty) hc.tables }, id⟩

theorem newCell_inStep (v : Val) : InStep R Eq (newCell v : M F S CellId) (newCell v) :=
  modifyGet_inStep hR fun a b hc =>
    ⟨congrArg (fun c : Array Val => CellId.mk c.size) hc.cells, .ofCells a _, .ofCells b _,
      { hc with cells := congrArg (·.push v) hc.cells }, id⟩

theorem newFunction_inStep {c d : Callable F} (hc : Admits R c d) :
    InStep R Eq (newFunction c : M F S FnId) (newFunction d) := fun a b hab =>
  ⟨congrArg FnId.mk (hR.kin hab).count, hc a b hab⟩

theorem newFunctionVal_inStep {c d : Callable F} (hc : Admits R c d) :
    InStep R Eq (newFunctionVal c : M F S Val) (newFunctionVal d) :=
  (newFunction_inStep hR hc).seq fun _ => .pure rfl

theorem putFunction_inStep (f : FnId) {c d : Callable F} {a b : Machine F S} (hab : R a b)
    (ha : (a.heap.function f).Kept c) (hb : (b.heap.function f).Kept d) (hcd : c.Alike d) :
    SameEnd R (fun u v a b => u = v ∧ R a b) (putFunction f c a) (putFunction f d b) := by
  have hc := hR.kin hab
  refine ⟨rfl, hR.steady hab (.ofRebind a f c ha) (.ofRebind b f d hb) { hc with
    count := by simp [hc.count]
    functions := fun g => ?_ } id⟩
  simp only [Heap.function, Array.getD_eq_getD_getElem?, Array.getElem?_setIfInBounds, hc.count]
  have := hc.functions g
  by_cases hfg : f.index = g.index
  · simp only [if_pos hfg]
    split
    · exact hcd
    · exact .same _
  · simpa only [if_neg hfg, Heap.function, Array.getD_eq_getD_getElem?] using this

theorem putCell_inStep (c : CellId) (v : Val) :
    InStep R Eq (putCell c v : M F S Unit) (putCell c v) :=
  (note_inStep hR _).seq fun _ => modifyGet_inStep hR fun a b hc =>
    ⟨rfl, .ofCells a _, .ofCells b _, { hc with
      cells := congrArg (·.setIfInBounds c.index v) hc.cells }, id⟩

theorem onTable_inStep (t : TableId) {f : Table → Table} (hf : ∀ u : Table, u.Becomes (f u)) :
    InStep R Eq (onTable t f : M F S Unit) (onTable t f) :=
  modifyGet_inStep hR fun a b hc =>
    ⟨rfl, .ofWrites a t hf, .ofWrites b t hf, { hc with
      tables := congrArg (·.modify t.index f) hc.tables }, id⟩

theorem setTable_inStep (t : TableId) (key value : Val) :
    InStep R Eq (setTable t key value : M F S Unit) (setTable t key value) := by
  unfold setTable
  split
  · rename_i k hkey
    exact (note_inStep hR _).seq fun _ =>
      onTable_inStep hR t fun _ => Table.Becomes.refl.insert (Val.toKey_toKey hkey) value
  · exact fail_inStep _ trivial

theorem setList_inStep (t : TableId) (first : Int) (values : List Val) :
    InStep R Eq (setList t first values : M F S Unit) (setList t first values) :=
  (note_inStep hR _).seq fun _ => onTable_inStep hR t fun _ => Table.Becomes.refl.setList first values

theorem setMetatable_inStep (t : TableId) (meta? : Option TableId) :
    InStep R Eq (setMetatable t meta? : M F S Unit) (setMetatable t meta?) :=
  (note_inStep hR _).seq fun _ => onTable_inStep hR t fun _ => Table.Becomes.refl.setMetatable meta?

theorem setTypeMetatable_inStep (k : Kind) (meta? : Option TableId) :
    InStep R Eq (setTypeMetatable k meta? : M F S Unit) (setTypeMetatable k meta?) :=
  modifyGet_inStep hR fun a b hc =>
    ⟨rfl, .ofTypes a _, .ofTypes b _, { hc with
      world := { hc.world with
        types := congrArg (fun types k' => if k' = k then meta? else types k') hc.world.types } },
      id⟩

theorem metatableOf_inStep (v : Val) :
    InStep R Eq (metatableOf v : M F S (Option TableId)) (metatableOf v) :=
  (get_inStep hR).bind fun a b hc => by
    split
    · exact .pure (by rw [hc.table_eq])
    · exact .pure (by rw [hc.world.types])

theorem metamethod_inStep (v : Val) (e : Event) :
    InStep R Eq (metamethod v e : M F S (Option Val)) (metamethod v e) :=
  (metatableOf_inStep hR v).seq fun t? => by
    split
    · exact .pure rfl
    · exact (tableAt_inStep hR _).seq fun _ => .pure rfl

theorem named_inStep (v : Val) : InStep R Eq (Base.named v : M F S String) (Base.named v) := by
  have haddressed (name : Option String) :
      InStep R Eq (Base.addressed v name : M F S String) (Base.addressed v name) := by
    unfold Base.addressed
    split
    · exact .pure rfl
    · exact (get_inStep hR).bind fun a b hkin => .pure (hkin.text_eq v)
  refine (metatableOf_inStep hR v).seq fun t? => ?_
  cases t? with
  | none => exact haddressed none
  | some t => exact (tableAt_inStep hR t).seq fun _ => haddressed _

/-! ## Live slots -/

variable {v w : View}

theorem slotValue_inStep {i : Nat}
    (hi : ∀ a b, R a b → v.slot a.thread.stack i = w.slot b.thread.stack i) :
    InStep R Eq (valueAt v i : M F S Val) (valueAt w i) :=
  read_inStep fun a b hab => by rw [View.get, View.get, hi a b hab, (hR.kin hab).cells]

variable (hS : Shares R v w)

include hS

theorem valueAt_inStep {i : Nat} (hi : i < v.top) :
    InStep R Eq (valueAt v i : M F S Val) (valueAt w i) :=
  slotValue_inStep hR fun _ _ hab => hS.slot hab i hi

theorem valuesFrom_inStep (first : Nat) :
    InStep R Eq (valuesFrom v first : M F S (List Val)) (valuesFrom w first) :=
  read_inStep fun a b hab => by
    rw [(hR.kin hab).cells, ← hS.top]
    exact (View.values_congr _ _ fun i _ hi => (hS.slot hab i hi).symm).symm

end Primitive

end Machine

end ScriptCore
