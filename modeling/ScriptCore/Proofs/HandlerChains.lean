import ScriptCore.Proofs.TableOperations

/-!
# Chains of handlers

A look-up or a write that a value does not answer goes on to the value's handler, and from there to
the handler's handler. The chain is read off the objects and the metatables (`next?`), and it may
run in a circle.

1. Both operations follow the chain (`index_follows`, `newIndex_follows`): where no handler is a
   function, `n` handlers lead from a value to the one that is `n` steps away, and nothing is
   changed on the way (`follow_reached`).
2. So they are decided by where the chain leads: to a table within the limit (`LeadsTo`), or else
   to a fault (`Astray`).
3. A write leaves the links of the chain up to the table that took it (`next?_wrote`), so a look-up
   that goes the same way finds what was written (`Mirrored.wrote`).
-/

namespace ScriptCore

variable {F S : Type}

namespace Machine

variable {m : Machine F S} {e : Event} {key v u : Val} {n limit : Nat}

/-! ## Chains -/

/-- Whether a value is a table that holds a key. -/
def holds (m : Machine F S) (key : Val) : Val → Bool
  | .table t => !((m.heap.table t).get key).isNil
  | _ => false

theorem isNil_iff {v : Val} : v.isNil ↔ v = .nil := by
  cases v <;> simp [Val.isNil]

theorem holds_table {t : TableId} : m.holds key (.table t) ↔ (m.heap.table t).get key ≠ .nil := by
  simp [holds, isNil_iff, ← Bool.not_eq_true]

/-- The handler to which a value leaves a key; a table that holds the key leaves it to none. -/
def next? (m : Machine F S) (e : Event) (key v : Val) : Option Val :=
  if m.holds key v then none else m.handler? v e

/-- The value that is `n` handlers away. -/
def reached? (m : Machine F S) (e : Event) (key : Val) : Nat → Val → Option Val
  | 0, v => some v
  | n + 1, v => (m.next? e key v).bind (m.reached? e key n)

/-- The chain from a value ends after `n` handlers. -/
structure Ends (m : Machine F S) (e : Event) (key v : Val) (n : Nat) (u : Val) : Prop where
  reached : m.reached? e key n v = some u
  last : m.next? e key u = none

/-- None of the first `n` handlers is a function. -/
def Plain (m : Machine F S) (e : Event) (key v : Val) (n : Nat) : Prop :=
  ∀ i < n, ∀ u, m.reached? e key (i + 1) v = some u → ¬ u.isFunction

theorem Plain.le {k : Nat} (h : m.Plain e key v n) (hk : k ≤ n) : m.Plain e key v k :=
  fun i hi => h i (Nat.lt_of_lt_of_le hi hk)

theorem reached?_cons {h : Val} (hnext : m.next? e key v = some h) :
    m.reached? e key (n + 1) v = m.reached? e key n h := by
  rw [reached?, hnext]
  rfl

theorem Plain.tail {h : Val} (hplain : m.Plain e key v (n + 1)) (hnext : m.next? e key v = some h) :
    m.Plain e key h n := by
  intro i hi u hu
  exact hplain (i + 1) (Nat.succ_lt_succ hi) u ((reached?_cons hnext).trans hu)

theorem reached?_tail (h : m.reached? e key (n + 1) v = some u) :
    ∃ w, m.next? e key v = some w ∧ m.reached? e key n w = some u := by
  rw [reached?] at h
  exact Option.bind_eq_some_iff.1 h

theorem reached?_succ (m : Machine F S) (e : Event) (key v : Val) (n : Nat) :
    m.reached? e key (n + 1) v = (m.reached? e key n v).bind (m.next? e key) := by
  induction n generalizing v with
  | zero =>
    show (m.next? e key v).bind some = m.next? e key v
    exact Option.bind_fun_some _
  | succ n ih =>
    rw [reached?, reached?]
    cases m.next? e key v with
    | none => rfl
    | some h => exact ih h

/-- A chain ends within the limit or goes on beyond it. -/
theorem ends_or_long (m : Machine F S) (e : Event) (key v : Val) (limit : Nat) :
    (∃ n ≤ limit, ∃ u, m.Ends e key v n u) ∨ (m.reached? e key (limit + 1) v).isSome := by
  induction limit generalizing v with
  | zero =>
    cases hnext : m.next? e key v with
    | none => exact .inl ⟨0, Nat.le_refl 0, v, rfl, hnext⟩
    | some h => exact .inr (Option.isSome_iff_exists.2 ⟨h, reached?_cons hnext⟩)
  | succ limit ih =>
    cases hnext : m.next? e key v with
    | none => exact .inl ⟨0, Nat.zero_le _, v, rfl, hnext⟩
    | some h =>
      obtain ⟨n, hn, u, hu⟩ | hlong := ih h
      · exact .inl ⟨n + 1, Nat.succ_le_succ hn, u, (reached?_cons hnext).trans hu.reached, hu.last⟩
      · exact .inr ((reached?_cons hnext).symm ▸ hlong)

/-- A chain that ends does not go on. -/
theorem Ends.reached?_eq_none {k : Nat} (h : m.Ends e key v n u) (hk : n < k) :
    m.reached? e key k v = none := by
  induction hk with
  | refl => rw [reached?_succ, h.reached]; exact h.last
  | step hk ih => rw [reached?_succ, ih]; rfl

/-- The number of handlers that an operation follows. -/
def chainLimit (m : Machine F S) : Nat := m.world.config.maxMetaChain

/-- The chain ends at a table within the limit. -/
def LeadsTo (m : Machine F S) (e : Event) (key v : Val) (t : TableId) : Prop :=
  ∃ n ≤ m.chainLimit, m.Ends e key v n (.table t)

/-- The chain ends within the limit, but not at a table, or it goes on beyond the limit. -/
def Astray (m : Machine F S) (e : Event) (key v : Val) : Prop :=
  (∃ n ≤ m.chainLimit, ∃ u, m.Ends e key v n u ∧ ∀ t, u ≠ .table t) ∨
    (m.reached? e key (m.chainLimit + 1) v).isSome

theorem leads_or_astray (m : Machine F S) (e : Event) (key v : Val) :
    (∃ t, m.LeadsTo e key v t) ∨ m.Astray e key v := by
  obtain ⟨n, hn, u, hend⟩ | hlong := m.ends_or_long e key v m.chainLimit
  · by_cases htable : ∃ t, u = .table t
    · obtain ⟨t, rfl⟩ := htable
      exact .inl ⟨t, n, hn, hend⟩
    · exact .inr (.inl ⟨n, hn, u, hend, fun t ht => htable ⟨t, ht⟩⟩)
  · exact .inr (.inr hlong)

/-! ## Following a chain -/

/-- What a probe finds. -/
theorem probe_eq (e : Event) (v key : Val) (m : Machine F S) :
    probe e v key m =
      match m.next? e key v with
      | some h => .ok (.handler h) m
      | none =>
        match v with
        | .table t => .ok (.entry t ((m.heap.table t).get key)) m
        | v => .error (.fault (.index v.kind)) m := by
  have hmeta := metamethod_eq v e m
  unfold probe next?
  cases v with
  | table t =>
    dsimp only
    rw [bind_of_ok (show tableAt t m = .ok (m.heap.table t) m from rfl)]
    by_cases hnil : (m.heap.table t).get key = .nil
    · rw [if_pos (isNil_iff.2 hnil), bind_of_ok hmeta, if_neg fun h => holds_table.1 h hnil, hnil]
      cases m.handler? (.table t) e <;> rfl
    · rw [if_neg (mt isNil_iff.1 hnil), if_pos (holds_table.2 hnil)]
      rfl
  | nil | bool | int | float | str | fn | co =>
    dsimp only
    rw [bind_of_ok hmeta]
    show _ = match (if false then none else m.handler? _ e) with | some h => _ | none => _
    rw [if_neg Bool.false_ne_true]
    cases m.handler? _ e <;> rfl

/-- A probe on the way finds the next handler. -/
theorem probe_handler {h : Val} (hnext : m.next? e key v = some h)
    (trace : Option (Array TraceEvent)) :
    probe e v key { m with trace := trace } = .ok (.handler h) { m with trace := trace } := by
  rw [probe_eq, show next? { m with trace := trace } e key v = some h from hnext]

section Following

variable {α : Type} (done : TableId → Val → M F S α) (ask : Val → Val → M F S α)

/-- Goes from handler to handler, at most `limit` of them: `done` ends the way at a table, and
`ask` at a function. -/
def follow (e : Event) (key : Val) (done : TableId → Val → M F S α) (ask : Val → Val → M F S α)
    (v : Val) (limit : Nat) : M F S α := do
  match ← probe e v key with
  | .entry t w => done t w
  | .handler h =>
    match limit with
    | 0 => fail (chainFault e)
    | limit + 1 =>
      record fun _ => .lookupHandler e v.kind key.kind
      if h.isFunction then ask v h else follow e key done ask h limit
termination_by structural limit

/-- `n` handlers lead to the value that is `n` steps away. -/
theorem follow_reached (hplain : m.Plain e key v n) (h : m.reached? e key n v = some u)
    (limit : Nat) (trace : Option (Array TraceEvent)) : ∃ trace',
      follow e key done ask v (n + limit) { m with trace := trace } =
        follow e key done ask u limit { m with trace := trace' } := by
  induction n generalizing v trace with
  | zero =>
    obtain rfl : v = u := Option.some.inj h
    exact ⟨trace, by rw [Nat.zero_add]⟩
  | succ n ih =>
    obtain ⟨w, hw, hreached⟩ := reached?_tail h
    obtain ⟨t, ht⟩ := record_ok { m with trace := trace } fun _ => .lookupHandler e v.kind key.kind
    obtain ⟨trace', hrest⟩ := ih (hplain.tail hw) hreached t
    refine ⟨trace', ?_⟩
    rw [Nat.succ_add, follow, bind_of_ok (probe_handler hw trace)]
    dsimp only
    rw [bind_of_ok ht, if_neg (hplain 0 n.succ_pos w ((reached?_cons hw).trans rfl))]
    exact hrest

/-- At the end of a chain a table is done with, and any other value is a fault. -/
theorem follow_end (hplain : m.Plain e key v limit) (h : m.Ends e key v n u) (hn : n ≤ limit) :
    ∃ trace, follow e key done ask v limit m =
      match u with
      | .table t => done t ((m.heap.table t).get key) { m with trace := trace }
      | u => .error (.fault (.index u.kind)) { m with trace := trace } := by
  obtain ⟨trace, hreached⟩ :=
    follow_reached done ask (hplain.le hn) h.reached (limit - n) m.trace
  rw [Nat.add_sub_cancel' hn] at hreached
  refine ⟨trace, hreached.trans ?_⟩
  have hprobe := (probe_eq e u key { m with trace := trace }).trans
    (by rw [show next? { m with trace := trace } e key u = none from h.last])
  rw [follow]
  cases u with
  | table t => exact bind_of_ok hprobe
  | nil | bool | int | float | str | fn | co => exact bind_of_error hprobe

/-- A chain that goes on beyond the limit is a fault. -/
theorem follow_long (hplain : m.Plain e key v limit)
    (h : (m.reached? e key (limit + 1) v).isSome) :
    ∃ trace, follow e key done ask v limit m =
      .error (.fault (chainFault e)) { m with trace := trace } := by
  obtain ⟨w, hlong⟩ := Option.isSome_iff_exists.1 h
  rw [reached?_succ] at hlong
  obtain ⟨u, hu, hw⟩ := Option.bind_eq_some_iff.1 hlong
  obtain ⟨trace, hreached⟩ := follow_reached done ask hplain hu 0 m.trace
  refine ⟨trace, hreached.trans ?_⟩
  rw [follow]
  exact bind_of_ok (probe_handler hw trace)

theorem follow_astray (hplain : m.Plain e key v m.chainLimit) (h : m.Astray e key v) :
    ∃ f trace, follow e key done ask v m.chainLimit m =
      .error (.fault f) { m with trace := trace } := by
  obtain ⟨n, hn, u, hend, htable⟩ | hlong := h
  · obtain ⟨trace, hrun⟩ := follow_end done ask hplain hend hn
    refine ⟨.index u.kind, trace, hrun.trans ?_⟩
    cases u with
    | table t => exact absurd rfl (htable t)
    | nil | bool | int | float | str | fn | co => rfl
  · obtain ⟨trace, hrun⟩ := follow_long done ask hplain hlong
    exact ⟨_, trace, hrun⟩

end Following

/-! ## Look-ups -/

section Operations

variable (P : Perform F S) (scratch : View)

theorem indexWithin_follows (v key : Val) (limit : Nat) :
    indexWithin P scratch v key limit =
      follow .index key (fun _ w => pure w) (fun v h => callMeta P scratch h [v, key]) v limit := by
  induction limit generalizing v with
  | zero =>
    unfold indexWithin follow
    congr 1
  | succ limit ih =>
    unfold indexWithin follow
    congr 1
    funext found
    cases found with
    | entry t w => rfl
    | handler h => dsimp only; rw [ih]

theorem newIndexWithin_follows (v key value : Val) (limit : Nat) :
    newIndexWithin P scratch v key value limit =
      follow .newIndex key (fun t _ => setTable t key value)
        (fun v h => callWith P scratch h [v, key, value]) v limit := by
  induction limit generalizing v with
  | zero =>
    unfold newIndexWithin follow
    congr 1
  | succ limit ih =>
    unfold newIndexWithin follow
    congr 1
    funext found
    cases found with
    | entry t w => rfl
    | handler h => dsimp only; rw [ih]

theorem index_follows (object key : Val) (m : Machine F S) :
    index P scratch object key m =
      follow .index key (fun _ w => pure w) (fun v h => callMeta P scratch h [v, key]) object
        m.chainLimit m := by
  show indexWithin P scratch object key m.chainLimit m = _
  rw [indexWithin_follows]

theorem newIndex_follows (object key value : Val) (m : Machine F S) :
    newIndex P scratch object key value m =
      follow .newIndex key (fun t _ => setTable t key value)
        (fun v h => callWith P scratch h [v, key, value]) object m.chainLimit m := by
  show newIndexWithin P scratch object key value m.chainLimit m = _
  rw [newIndexWithin_follows]

theorem index_leads {object : Val} {t : TableId} (hplain : m.Plain .index key object m.chainLimit)
    (h : m.LeadsTo .index key object t) : ∃ trace,
      index P scratch object key m = .ok ((m.heap.table t).get key) { m with trace := trace } := by
  obtain ⟨n, hn, hend⟩ := h
  rw [index_follows]
  exact follow_end _ _ hplain hend hn

theorem index_astray {object : Val} (hplain : m.Plain .index key object m.chainLimit)
    (h : m.Astray .index key object) : ∃ f trace,
      index P scratch object key m = .error (.fault f) { m with trace := trace } := by
  rw [index_follows]
  exact follow_astray _ _ hplain h

/-! ## Writes -/

/-- What is left by a write of a value at a key in normal form. -/
def wrote (m : Machine F S) (t : TableId) (k value : Val) (trace : Option (Array TraceEvent)) :
    Machine F S :=
  { m with
    heap := m.withTable t ((m.heap.table t).insert k value)
    trace := trace
    journal := m.journal.map (·.push (.entry t k value)) }

theorem setTable_eq (t : TableId) (key value : Val) (m : Machine F S) :
    setTable t key value m =
      match key.toKey with
      | .ok k => .ok () (m.wrote t k value m.trace)
      | .error c => .error (.fault (.invalidKey c)) m := by
  unfold setTable wrote withTable
  cases key.toKey with
  | error c => rfl
  | ok k =>
    dsimp only
    rw [← m.modify_eq t (·.insert k value)]
    exact bind_of_ok (note_ok m _)

theorem newIndex_leads {object : Val} (value : Val) {t : TableId}
    (hplain : m.Plain .newIndex key object m.chainLimit) (h : m.LeadsTo .newIndex key object t) :
    ∃ trace, newIndex P scratch object key value m =
      match key.toKey with
      | .ok k => .ok () (m.wrote t k value trace)
      | .error c => .error (.fault (.invalidKey c)) { m with trace := trace } := by
  obtain ⟨n, hn, hend⟩ := h
  rw [newIndex_follows]
  obtain ⟨trace, htable⟩ := follow_end (fun t _ => setTable t key value)
    (fun v h => callWith P scratch h [v, key, value]) hplain hend hn
  exact ⟨trace, htable.trans (setTable_eq ..)⟩

theorem newIndex_astray {object value : Val} (hplain : m.Plain .newIndex key object m.chainLimit)
    (h : m.Astray .newIndex key object) : ∃ f trace,
      newIndex P scratch object key value m = .error (.fault f) { m with trace := trace } := by
  rw [newIndex_follows]
  exact follow_astray _ _ hplain h

/-- A look-up gives a value or a fault, and changes nothing. -/
theorem index_ends {object : Val} (hplain : m.Plain .index key object m.chainLimit) :
    (∃ t trace, m.LeadsTo .index key object t ∧
      index P scratch object key m = .ok ((m.heap.table t).get key) { m with trace := trace }) ∨
    m.Astray .index key object ∧ ∃ f trace,
      index P scratch object key m = .error (.fault f) { m with trace := trace } := by
  obtain ⟨t, hleads⟩ | hastray := m.leads_or_astray .index key object
  · obtain ⟨trace, hrun⟩ := index_leads P scratch hplain hleads
    exact .inl ⟨t, trace, hleads, hrun⟩
  · exact .inr ⟨hastray, index_astray P scratch hplain hastray⟩

/-- A write is made at the end of the chain, or it is a fault. -/
theorem newIndex_ends {object : Val} (value : Val)
    (hplain : m.Plain .newIndex key object m.chainLimit) :
    (∃ t k trace, m.LeadsTo .newIndex key object t ∧ key.toKey = .ok k ∧
      newIndex P scratch object key value m = .ok () (m.wrote t k value trace)) ∨
    ∃ f trace,
      newIndex P scratch object key value m = .error (.fault f) { m with trace := trace } := by
  obtain ⟨t, hleads⟩ | hastray := m.leads_or_astray .newIndex key object
  · obtain ⟨trace, hrun⟩ := newIndex_leads P scratch value hplain hleads
    cases hkey : key.toKey with
    | ok k => exact .inl ⟨t, k, trace, hleads, rfl, hrun.trans (by rw [hkey])⟩
    | error c => exact .inr ⟨_, trace, hrun.trans (by rw [hkey])⟩
  · exact .inr (newIndex_astray P scratch hplain hastray)

theorem newIndex_ok {object value : Val} {m' : Machine F S}
    (hplain : m.Plain .newIndex key object m.chainLimit)
    (hrun : newIndex P scratch object key value m = .ok () m') : ∃ t k trace,
      m.LeadsTo .newIndex key object t ∧ key.toKey = .ok k ∧ m' = m.wrote t k value trace := by
  obtain ⟨t, k, trace, hleads, hkey, hwrote⟩ | ⟨f, trace, hfault⟩ :=
    newIndex_ends P scratch value hplain
  · rw [hwrote] at hrun
    cases hrun
    exact ⟨t, k, trace, hleads, hkey, rfl⟩
  · rw [hfault] at hrun
    cases hrun

end Operations

/-! ## What a write leaves -/

theorem insert_metatable (t : Table) (key v : Val) : (t.insert key v).metatable = t.metatable := by
  unfold Table.insert
  dsimp only
  split
  · rfl
  · split
    · rfl
    · split <;> rfl

section Writes

variable {t : TableId} {k value : Val} {trace : Option (Array TraceEvent)}

theorem table_wrote_self (ht : t.index < m.heap.tables.size) :
    (m.wrote t k value trace).heap.table t = (m.heap.table t).insert k value := by
  simp [wrote, withTable, Heap.table, ht, Array.getElem_modify]

theorem table_wrote_other {t' : TableId} (h : t' ≠ t) :
    (m.wrote t k value trace).heap.table t' = m.heap.table t' := by
  have hindex : t.index ≠ t'.index := fun heq => h (congrArg TableId.mk heq).symm
  simp [wrote, withTable, Heap.table, Array.getElem?_modify, hindex]

/-- A write at a key is seen at that key only. -/
theorem get_wrote (ht : t.index < m.heap.tables.size) (hsound : (m.heap.table t).Sound)
    {key' k' : Val} (hkey : key'.toKey = .ok k') :
    ((m.wrote t k value trace).heap.table t).get key' =
      if k' = k then value else (m.heap.table t).get key' := by
  rw [table_wrote_self ht]
  unfold Table.get
  rw [hkey]
  exact hsound.lookup_insert ..

/-- A write at another key than that of an event leaves the handlers for the event. -/
theorem handler?_wrote (ht : t.index < m.heap.tables.size) (hsound : (m.heap.table t).Sound)
    (hk : k ≠ .str e.key) (v : Val) :
    (m.wrote t k value trace).handler? v e = m.handler? v e := by
  have hmeta : (m.wrote t k value trace).metatable? v = m.metatable? v := by
    cases v with
    | table t' =>
      show ((m.wrote t k value trace).heap.table t').metatable = (m.heap.table t').metatable
      by_cases h : t' = t
      · rw [h, table_wrote_self ht, insert_metatable]
      · rw [table_wrote_other h]
    | nil | bool | int | float | str | fn | co => rfl
  have hget (t' : TableId) : ((m.wrote t k value trace).heap.table t').getStr e.key =
      (m.heap.table t').getStr e.key := by
    by_cases h : t' = t
    · rw [h]
      exact (get_wrote ht hsound rfl).trans (if_neg hk.symm)
    · rw [table_wrote_other h]
  unfold handler?
  simp only [hmeta, hget]

theorem next?_wrote (ht : t.index < m.heap.tables.size) (hsound : (m.heap.table t).Sound)
    (hk : k ≠ .str e.key) (hv : v ≠ .table t) :
    (m.wrote t k value trace).next? e key v = m.next? e key v := by
  have hholds : (m.wrote t k value trace).holds key v = m.holds key v := by
    cases v with
    | table t' =>
      unfold holds
      dsimp only
      rw [table_wrote_other fun h => hv (congrArg Val.table h)]
    | nil | bool | int | float | str | fn | co => rfl
  unfold next?
  rw [hholds, handler?_wrote ht hsound hk]

/-- Chains whose links agree lead to the same values. -/
theorem reached?_congr (m m' : Machine F S) (e e' : Event) (key v : Val)
    (h : ∀ i < n, ∀ u, m.reached? e key i v = some u → m'.next? e' key u = m.next? e key u) :
    ∀ i ≤ n, m'.reached? e' key i v = m.reached? e key i v := by
  intro i hi
  induction i with
  | zero => rfl
  | succ i ih =>
    rw [reached?_succ, reached?_succ, ih (Nat.le_of_succ_le hi)]
    cases hu : m.reached? e key i v with
    | none => rfl
    | some u => exact h i hi u hu

/-- On the way of a write, the handler for look-ups is the handler for writes. -/
def Mirrored (m : Machine F S) (key object : Val) : Prop :=
  ∀ i ≤ m.chainLimit, ∀ v, m.reached? .newIndex key i object = some v →
    m.handler? v .index = m.handler? v .newIndex

theorem next?_mirrored (h : m.handler? v .index = m.handler? v .newIndex) :
    m.next? .index key v = m.next? .newIndex key v := by
  unfold next?
  rw [h]

theorem toKey_eq_str {s : String} (h : key.toKey = .ok (.str s)) : key = .str s := by
  unfold Val.toKey at h
  split at h
  · cases h
  · split at h
    · cases h
    · split at h <;> cases h
  · exact Except.ok.inj h

/-- **The way back.** Where the handlers for look-ups and for writes agree, a look-up after a write
comes to the table that took it. -/
theorem Mirrored.wrote {object : Val} (trace : Option (Array TraceEvent))
    (h : m.Mirrored key object)
    (hplain : m.Plain .newIndex key object m.chainLimit) (hleads : m.LeadsTo .newIndex key object t)
    (hkey : key.toKey = .ok k) (hindex : key ≠ .str Event.index.key) (hvalue : value ≠ .nil)
    (ht : t.index < m.heap.tables.size) (hsound : (m.heap.table t).Sound) :
    (m.wrote t k value trace).Plain .index key object (m.wrote t k value trace).chainLimit ∧
      (m.wrote t k value trace).LeadsTo .index key object t := by
  obtain ⟨n, hn, hend⟩ := hleads
  have hk : k ≠ .str Event.index.key := fun hk => hindex (toKey_eq_str (hk ▸ hkey))
  have hway := reached?_congr m (m.wrote t k value trace) .newIndex .index key object
    fun i (hi : i < n) u hu => by
      -- the table that takes the write has no link, so the way to it does not lead through it
      have hother : u ≠ .table t := by
        rintro rfl
        have hnone := Ends.reached?_eq_none ⟨hu, hend.last⟩ hi
        rw [hend.reached] at hnone
        cases hnone
      rw [next?_wrote ht hsound hk hother]
      exact next?_mirrored (h i (Nat.le_trans (Nat.le_of_lt hi) hn) u hu)
  have hlast : (m.wrote t k value trace).Ends .index key object n (.table t) := by
    refine ⟨(hway n (Nat.le_refl n)).trans hend.reached, if_pos (holds_table.2 ?_)⟩
    rw [get_wrote ht hsound hkey, if_pos rfl]
    exact hvalue
  refine ⟨fun i _ u hu => ?_, n, hn, hlast⟩
  by_cases hi : i + 1 ≤ n
  · rw [hway (i + 1) hi] at hu
    exact hplain i (Nat.lt_of_lt_of_le hi hn) u hu
  · rw [hlast.reached?_eq_none (Nat.lt_of_not_le hi)] at hu
    cases hu

/-- A look-up after a write of a value gives this value. -/
theorem Mirrored.index_wrote (P P' : Perform F S) (scratch scratch' : View) {object : Val}
    {m' : Machine F S} (h : m.Mirrored key object)
    (hplain : m.Plain .newIndex key object m.chainLimit) (hindex : key ≠ .str Event.index.key)
    (hvalue : value ≠ .nil) (hsound : ∀ t, (m.heap.table t).Sound)
    (hplaced : ∀ t, m.LeadsTo .newIndex key object t → t.index < m.heap.tables.size)
    (hrun : newIndex P scratch object key value m = .ok () m') : ∃ trace,
      index P' scratch' object key m' = .ok value { m' with trace := trace } := by
  obtain ⟨t, k, trace, hleads, hkey, rfl⟩ := newIndex_ok P scratch hplain hrun
  have ht := hplaced t hleads
  obtain ⟨hplain', hleads'⟩ :=
    h.wrote trace hplain hleads hkey hindex hvalue ht (hsound t)
  obtain ⟨trace', hfound⟩ := index_leads P' scratch' hplain' hleads'
  rw [get_wrote ht (hsound t) hkey, if_pos rfl] at hfound
  exact ⟨trace', hfound⟩

end Writes

end Machine

open Machine

/-- **Chains of handlers.** Where no handler on the way is a function, a write goes along the
handlers for writes. It succeeds if the chain leads to a table within the limit and the key is
one; then it has written the value at that key of this table, and nothing else. If it fails, it
has changed no object. A look-up changes nothing. It gives what the table at the end of its chain
holds, which is nil for a table that was asked last for want of a handler; it fails just where the
chain ends at another value or goes on beyond the limit. Where the handlers for look-ups and for
writes agree, and the key is not the name of the former, a look-up after a write of a value gives
this value. -/
theorem handler_chains (P : Perform F S) (scratch : View) (object key value : Val)
    (m : Machine F S) :
    (m.Plain .newIndex key object m.chainLimit →
      (∀ t k, m.LeadsTo .newIndex key object t → key.toKey = .ok k → ∃ trace,
        newIndex P scratch object key value m = .ok () (m.wrote t k value trace)) ∧
      (∀ m', newIndex P scratch object key value m = .ok () m' → ∃ t k trace,
        m.LeadsTo .newIndex key object t ∧ key.toKey = .ok k ∧ m' = m.wrote t k value trace) ∧
      (∀ x m', newIndex P scratch object key value m = .error x m' → ∃ f trace,
        x = .fault f ∧ m' = { m with trace := trace })) ∧
    (∀ t k trace, t.index < m.heap.tables.size → (m.heap.table t).Sound →
      (∀ key' k', key'.toKey = .ok k' → ((m.wrote t k value trace).heap.table t).get key' =
        if k' = k then value else (m.heap.table t).get key') ∧
      ((m.wrote t k value trace).heap.table t).metatable = (m.heap.table t).metatable ∧
      ∀ u, u ≠ t → (m.wrote t k value trace).heap.table u = m.heap.table u) ∧
    (m.Plain .index key object m.chainLimit →
      (∀ t, m.LeadsTo .index key object t → ∃ trace,
        index P scratch object key m = .ok ((m.heap.table t).get key) { m with trace := trace }) ∧
      ((∃ x m', index P scratch object key m = .error x m') ↔ m.Astray .index key object) ∧
      (∀ x m', index P scratch object key m = .error x m' → ∃ f trace,
        x = .fault f ∧ m' = { m with trace := trace })) ∧
    (m.Plain .newIndex key object m.chainLimit → m.Mirrored key object →
      key ≠ .str Event.index.key → value ≠ .nil → (∀ t, (m.heap.table t).Sound) →
      (∀ t, m.LeadsTo .newIndex key object t → t.index < m.heap.tables.size) →
      ∀ m', newIndex P scratch object key value m = .ok () m' → ∀ (P' : Perform F S) scratch',
        ∃ trace, index P' scratch' object key m' = .ok value { m' with trace := trace }) := by
  refine ⟨fun hplain => ⟨fun t k hleads hkey => ?_, fun m' => newIndex_ok P scratch hplain,
      fun x m' hrun => ?_⟩,
    fun t k trace ht hsound => ⟨fun key' k' => get_wrote ht hsound, ?_, fun u => table_wrote_other⟩,
    fun hplain => ⟨fun t => index_leads P scratch hplain, ⟨?_, fun hastray => ?_⟩,
      fun x m' hrun => ?_⟩,
    fun hplain hmirrored hindex hvalue hsound hplaced m' hrun P' scratch' =>
      hmirrored.index_wrote P P' scratch scratch' hplain hindex hvalue hsound hplaced hrun⟩
  · obtain ⟨trace, hrun⟩ := newIndex_leads P scratch value hplain hleads
    exact ⟨trace, hrun.trans (by rw [hkey])⟩
  · obtain ⟨t, k, trace, -, -, hwrote⟩ | ⟨f, trace, hfault⟩ := newIndex_ends P scratch value hplain
    · rw [hwrote] at hrun
      cases hrun
    · rw [hfault] at hrun
      cases hrun
      exact ⟨f, trace, rfl, rfl⟩
  · rw [table_wrote_self ht, insert_metatable]
  · rintro ⟨x, m', hrun⟩
    obtain ⟨t, trace, -, hvalue⟩ | ⟨hastray, -⟩ := index_ends P scratch hplain
    · rw [hvalue] at hrun
      cases hrun
    · exact hastray
  · obtain ⟨f, trace, hfault⟩ := index_astray P scratch hplain hastray
    exact ⟨_, _, hfault⟩
  · obtain ⟨t, trace, -, hvalue⟩ | ⟨-, f, trace, hfault⟩ := index_ends P scratch hplain
    · rw [hvalue] at hrun
      cases hrun
    · rw [hfault] at hrun
      cases hrun
      exact ⟨f, trace, rfl, rfl⟩

end ScriptCore
