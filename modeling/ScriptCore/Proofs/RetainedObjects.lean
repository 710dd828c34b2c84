import ScriptCore.Library.Standard
import ScriptCore.Proofs.InStep
import ScriptCore.Proofs.TableOperations
import ScriptCore.Scenario

/-!
# Objects that are retained

A machine has functions, and owns the tables that are not its globals. What it has and owns is
retained where tables and functions are added and globals are written (`Machine.Retains`): by a new
state for the same objects (`restart_renews`), and by the installation of modules, which writes to
the globals and to tables of its own only (`installAll_equips`).
-/

namespace ScriptCore

open Machine

variable {F S α β : Type}

/-! ## Tables -/

namespace Table

/-- A value that is written at a name is found there. -/
theorem getStr_insert_self (t : Table) (name : String) {v : Val} (hv : v ≠ .nil) :
    (t.insert (.str name) v).getStr name = v := by
  have hnext : ¬ IsIndex (.str name) t.array.size := by
    rintro ⟨n, hn, -⟩
    cases hn
  rw [insert_other rfl hv hnext]
  show (t.hash.insert (.str name) v).getD (.str name) .nil = v
  exact Std.HashMap.getD_insert_self

end Table

namespace Machine

/-! ## Objects of a machine -/

/-- A function of the heap. -/
structure Has (m : Machine F S) (f : FnId) (c : Callable F) : Prop where
  index_lt : f.index < m.heap.functions.size
  function_eq : m.heap.function f = c

/-- A table of the heap that is not that of the globals. -/
structure Owns (m : Machine F S) (c : TableId) (t : Table) : Prop where
  index_lt : c.index < m.heap.tables.size
  ne_globals : c ≠ m.world.globals
  table_eq : m.heap.table c = t

/-- A later machine has and owns what the one before does. -/
structure Retains (m u : Machine F S) : Prop where
  functions : ∀ f c, m.Has f c → u.Has f c
  tables : ∀ c t, m.Owns c t → u.Owns c t
  size : m.heap.tables.size ≤ u.heap.tables.size

namespace Retains

variable {m u t : Machine F S}

theorem refl (m : Machine F S) : m.Retains m := ⟨fun _ _ h => h, fun _ _ h => h, Nat.le_refl _⟩

theorem trans (h : m.Retains u) (k : u.Retains t) : m.Retains t where
  functions f c hf := k.functions f c (h.functions f c hf)
  tables c d hc := k.tables c d (h.tables c d hc)
  size := Nat.le_trans h.size k.size

/-- Functions and tables that are the same are retained. -/
theorem of_eq (hfunctions : u.heap.functions = m.heap.functions)
    (htables : u.heap.tables = m.heap.tables) (hglobals : u.world.globals = m.world.globals) :
    m.Retains u where
  functions f c hf := by
    refine ⟨hfunctions ▸ hf.index_lt, Eq.trans ?_ hf.function_eq⟩
    rw [Heap.function, hfunctions]
    rfl
  tables c d hc := by
    refine ⟨htables ▸ hc.index_lt, hglobals ▸ hc.ne_globals, Eq.trans ?_ hc.table_eq⟩
    rw [Heap.table, htables]
    rfl
  size := Nat.le_of_eq (by rw [htables])

/-- The globals are no table that is owned. -/
theorem not_owns_globals (h : m.Retains u) (t : Table) : ¬ m.Owns u.world.globals t :=
  fun howns => (h.tables _ t howns).ne_globals rfl

/-- A table that is still to be made is not owned. -/
theorem not_owns_new (h : m.Retains u) (t : Table) : ¬ m.Owns ⟨u.heap.tables.size⟩ t :=
  fun howns => Nat.not_lt.2 h.size howns.index_lt

end Retains

/-! ## Primitive steps -/

section Steps

variable (m : Machine F S)

theorem retains_pushed (c : Callable F) : m.Retains (m.pushed c) where
  functions f d hf := by
    refine ⟨Nat.lt_of_lt_of_le hf.index_lt (by simp [pushed]), Eq.trans ?_ hf.function_eq⟩
    simp [pushed, Heap.function, Array.getD_eq_getD_getElem?, Array.getElem?_push,
      Nat.ne_of_lt hf.index_lt]
  tables _ _ hc := ⟨hc.1, hc.2, hc.3⟩
  size := Nat.le_refl _

theorem has_pushed (c : Callable F) : (m.pushed c).Has ⟨m.heap.functions.size⟩ c where
  index_lt := by simp [pushed]
  function_eq := by simp [pushed, Heap.function, Array.getD_eq_getD_getElem?]

/-- A machine with one more table. -/
def tabled : Machine F S := { m with heap := { m.heap with tables := m.heap.tables.push .empty } }

theorem retains_tabled : m.Retains m.tabled where
  functions _ _ hf := ⟨hf.1, hf.2⟩
  tables c t hc := by
    refine ⟨Nat.lt_of_lt_of_le hc.index_lt (by simp [tabled]), hc.ne_globals,
      Eq.trans ?_ hc.table_eq⟩
    simp [tabled, Heap.table, Array.getD_eq_getD_getElem?, Array.getElem?_push,
      Nat.ne_of_lt hc.index_lt]
  size := by simp [tabled]

theorem owns_tabled (h : m.world.globals.index < m.heap.tables.size) :
    m.tabled.Owns ⟨m.heap.tables.size⟩ .empty where
  index_lt := by simp [tabled]
  ne_globals heq := by
    have hindex : m.heap.tables.size = m.world.globals.index := congrArg TableId.index heq
    omega
  table_eq := by simp [tabled, Heap.table, Array.getD_eq_getD_getElem?]

/-- A machine in which a table has been changed by a write. -/
def edited (c : TableId) (f : Table → Table) (w : Write) : Machine F S :=
  { m with
    heap := { m.heap with tables := m.heap.tables.modify c.index f }
    journal := m.journal.map (·.push w) }

theorem setField_eq (c : TableId) (name : String) (v : Val) : setField c name v m =
    .ok () (m.edited c (·.insert (.str name) v) (.entry c (.str name) v)) :=
  bind_of_ok (note_ok m _)

theorem setMetatable_eq (c : TableId) (meta? : Option TableId) : setMetatable c meta? m =
    .ok () (m.edited c (fun t => { t with metatable := meta? }) (.metatable c meta?)) :=
  bind_of_ok (note_ok m _)

variable {m} {u : Machine F S} {c : TableId} {t : Table}

theorem table_edited (f : Table → Table) (w : Write) (h : c.index < m.heap.tables.size) :
    (m.edited c f w).heap.table c = f (m.heap.table c) := by
  simp [edited, Heap.table, h, Array.getElem_modify_self]

theorem owns_edited (h : m.Owns c t) (f : Table → Table) (w : Write) :
    (m.edited c f w).Owns c (f t) where
  index_lt := by simpa [edited] using h.index_lt
  ne_globals := h.ne_globals
  table_eq := by rw [table_edited f w h.index_lt, h.table_eq]

/-- A table that is not owned can be written. -/
theorem Retains.edited (h : m.Retains u) (hc : ∀ t, ¬ m.Owns c t) (f : Table → Table)
    (w : Write) : m.Retains (u.edited c f w) where
  functions g d hg := ⟨(h.functions g d hg).1, (h.functions g d hg).2⟩
  tables d t hd := by
    have hne : c.index ≠ d.index := by
      rintro heq
      obtain rfl : c = d := congrArg TableId.mk heq
      exact hc t hd
    obtain ⟨hlt, hglobals, htable⟩ := h.tables d t hd
    refine ⟨by simpa [Machine.edited] using hlt, hglobals, Eq.trans ?_ htable⟩
    simp [Machine.edited, Heap.table, Array.getD_eq_getD_getElem?, Array.getElem?_modify, hne]
  size := by simpa [Machine.edited] using h.size

end Steps

/-! ## Steps that add objects -/

/-- A step that ends with a value of `Q`, wherever what `m` has and owns is retained. It keeps this,
and changes nothing of what is in progress. -/
def Equips (m : Machine F S) (x : M F S α) (Q : α → Prop) : Prop :=
  ∀ u, m.Retains u → ∃ a t, x u = .ok a t ∧ Q a ∧ m.Retains t ∧ t.thread = u.thread ∧
    t.world = u.world

section Equipment

variable {m : Machine F S} {Q : α → Prop} {R : β → Prop}

theorem Equips.bind {x : M F S α} {f : α → M F S β} (hx : m.Equips x Q)
    (hf : ∀ a, Q a → m.Equips (f a) R) : m.Equips (x >>= f) R := by
  intro u hu
  obtain ⟨a, t, hxu, ha, ht, hthread, hworld⟩ := hx u hu
  obtain ⟨b, v, hfa, hb, hv, hthread', hworld'⟩ := hf a ha t ht
  exact ⟨b, v, (bind_of_ok hxu).trans hfa, hb, hv, hthread'.trans hthread, hworld'.trans hworld⟩

theorem Equips.pure {a : α} (ha : Q a) : m.Equips (pure a : M F S α) Q :=
  fun u hu => ⟨a, u, rfl, ha, hu, rfl, rfl⟩

theorem newFunctionVal_equips (c : Callable F) : m.Equips (newFunctionVal c) fun _ => True :=
  fun u hu => ⟨_, u.pushed c, rfl, trivial, hu.trans (u.retains_pushed c), rfl, rfl⟩

/-- A new table is not owned before. -/
theorem newTable_equips : m.Equips newTable fun c => ∀ t, ¬ m.Owns c t :=
  fun u hu => ⟨_, u.tabled, rfl, hu.not_owns_new, hu.trans u.retains_tabled, rfl, rfl⟩

theorem globals_equips : m.Equips (globals : M F S TableId) fun c => ∀ t, ¬ m.Owns c t :=
  fun u hu => ⟨_, u, rfl, hu.not_owns_globals, hu, rfl, rfl⟩

theorem record_equips (e : Unit → TraceEvent) : m.Equips (record e) fun _ => True := by
  intro u hu
  obtain ⟨x, hx⟩ := record_ok u e
  exact ⟨(), _, hx, trivial, hu.trans (.of_eq rfl rfl rfl), rfl, rfl⟩

variable {c : TableId}

theorem setField_equips (hc : ∀ t, ¬ m.Owns c t) (name : String) (v : Val) :
    m.Equips (setField c name v) fun _ => True :=
  fun u hu => ⟨(), _, u.setField_eq c name v, trivial, hu.edited hc _ _, rfl, rfl⟩

theorem setFields_equips (hc : ∀ t, ¬ m.Owns c t) (fields : List (String × Val)) :
    m.Equips (setFields c fields) fun _ => True := by
  induction fields with
  | nil => exact .pure trivial
  | cons field rest ih =>
    obtain ⟨name, v⟩ := field
    exact (setField_equips hc name v).bind fun _ _ => ih

/-! ## Installation of modules -/

theorem publish_equips (lib : Module) : m.Equips (publish lib) fun _ => True := by
  unfold publish
  cases lib.publication with
  | table =>
    refine newTable_equips.bind fun c hc => (setFields_equips hc _).bind fun _ _ => ?_
    exact globals_equips.bind fun g hg => (setField_equips hg _ _).bind fun _ _ => .pure trivial
  | globals =>
    refine globals_equips.bind fun g hg => (setFields_equips hg _).bind fun _ _ => ?_
    exact (setField_equips hg _ _).bind fun _ _ => .pure trivial
  | failing words => exact .pure trivial

theorem install_equips (libs : List Module) : m.Equips (install libs) fun _ => True := by
  induction libs with
  | nil => exact .pure trivial
  | cons lib rest ih =>
    unfold install
    split
    · refine (record_equips _).bind fun _ _ => (publish_equips lib).bind fun ending _ => ?_
      cases ending with
      | ok => exact ih
      | error => exact .pure trivial
    · exact ih

theorem functions_equips (exports : List (String × Callable F)) :
    m.Equips (Standard.functions exports) fun _ => True := by
  induction exports with
  | nil => exact .pure trivial
  | cons field rest ih =>
    obtain ⟨name, f⟩ := field
    exact (newFunctionVal_equips f).bind fun _ _ => ih.bind fun _ _ => .pure trivial

/-- Modules have functions that are new. -/
theorem module_equips (exports : List (String × Callable F)) (lib : List (String × Val) → Module) :
    m.Equips (do return lib (← Standard.functions exports)) fun _ => True :=
  (functions_equips exports).bind fun _ _ => .pure trivial

/-- **The standard modules.** Their installation adds objects and writes globals. -/
theorem installAll_equips : m.Equips Standard.installAll fun _ => True := by
  have hmodules : m.Equips Standard.modules fun _ => True := by
    unfold Standard.modules Standard.base Standard.coroutine Standard.debug
    refine (module_equips _ _).bind fun base _ => (module_equips _ _).bind fun coroutine _ => ?_
    exact (module_equips _ _).bind fun debug _ => .pure trivial
  exact hmodules.bind fun libs _ => install_equips libs

end Equipment

/-! ## New states -/

/-- A machine with no call in progress and with globals. -/
structure Idle (m : Machine F S) : Prop where
  depth : m.thread.depth = 0
  globals : m.world.globals.index < m.heap.tables.size

/-- A machine is idle in a new state for the objects of another one. -/
structure Renews (m u : Machine F S) (config : Config) : Prop where
  retains : m.Retains u
  idle : u.Idle
  config_eq : u.world.config = config
  capacity : u.thread.stack.capacity = config.initialStackSlots

variable (m : Machine F S) (config : Config)

/-- **A new state** has globals of its own. -/
theorem restart_renews : ∃ u, restart config m = .ok () u ∧ m.Renews u config := by
  let u : Machine F S := { start m.heap config m.trace m.host with output := m.output }
  refine ⟨u, rfl, ⟨?_, ?_, m.retains_tabled.size⟩, ⟨rfl, ?_⟩, rfl, ?_⟩
  · exact fun f c hf => ⟨hf.1, hf.2⟩
  · -- The table of the new globals is a new one, so it is none of those that are owned.
    intro c t hc
    have howns := m.retains_tabled.tables c t hc
    refine ⟨howns.index_lt, ?_, howns.table_eq⟩
    rintro rfl
    exact Nat.lt_irrefl _ hc.index_lt
  · simp [u, start]
  · simp [u, start, Thread.ofConfig, Stack.ofCapacity, Stack.capacity]

/-- So does one with the standard modules. -/
theorem Renews.installed {m u : Machine F S} {config : Config} (h : m.Renews u config) :
    ∃ a t, Standard.installAll u = .ok a t ∧ m.Renews t config := by
  obtain ⟨a, t, hinstall, -, ht, hthread, hworld⟩ := installAll_equips u (.refl u)
  refine ⟨a, t, hinstall, h.retains.trans ht, ⟨?_, ?_⟩, ?_, ?_⟩
  · rw [hthread, h.idle.depth]
  · rw [hworld]
    exact Nat.lt_of_lt_of_le h.idle.globals ht.size
  · rw [hworld, h.config_eq]
  · rw [hthread, h.capacity]

/-- Starts a new state, with the standard modules or without. -/
def renew (config : Config) (modules : Bool) : M F S Unit := do
  restart config
  if modules then
    let _ ← Standard.installAll

theorem renew_renews (modules : Bool) :
    ∃ u, renew config modules m = .ok () u ∧ m.Renews u config := by
  obtain ⟨u, hrestart, hu⟩ := m.restart_renews config
  cases modules with
  | false => exact ⟨u, bind_of_ok hrestart, hu⟩
  | true =>
    obtain ⟨a, t, hinstall, ht⟩ := hu.installed
    exact ⟨t, (bind_of_ok hrestart).trans (bind_of_ok hinstall), ht⟩

end Machine

end ScriptCore
