import ScriptCore.Proofs.Requests
import ScriptCore.Proofs.Tables

/-!
# Operations on tables

Scripts, the library and the machine write to tables in a few ways (`TableOp`): by a key, by a list
of values, by `rawset`, and by the operations of a body that append values or store one where no
handler takes it. Each of them makes one edit of one table and leaves all other objects alone
(`TableOp.run_performs`), so a table holds what its edits have written (`History.holds`), and
every table of every run is sound (`tables_represent_maps`).
-/

namespace ScriptCore

open Machine

variable {F S : Type}

/-! ## Where a write goes -/

namespace Machine

/-- The metatable that applies to a value. -/
def metatable? (m : Machine F S) : Val → Option TableId
  | .table t => (m.heap.table t).metatable
  | v => m.world.typeMetatable v.kind

theorem metatableOf_eq (v : Val) (m : Machine F S) : metatableOf v m = .ok (m.metatable? v) m := by
  cases v <;> rfl

/-- The handler of a value for an event. -/
def handler? (m : Machine F S) (v : Val) (e : Event) : Option Val :=
  (m.metatable? v).bind fun t =>
    let handler := (m.heap.table t).getStr e.key
    if handler.isNil then none else some handler

theorem metamethod_eq (v : Val) (e : Event) (m : Machine F S) :
    metamethod v e m = .ok (m.handler? v e) m := by
  unfold metamethod handler?
  rw [bind_of_ok (metatableOf_eq v m)]
  cases m.metatable? v <;> rfl

/-- Where a write at a key of a value goes: to a handler, or to the table itself. -/
def found (m : Machine F S) (current key : Val) : Option Found :=
  match current with
  | .table t =>
    let v := (m.heap.table t).get key
    if v.isNil then
      match m.handler? current .newIndex with
      | some h => some (.handler h)
      | none => some (.entry t .nil)
    else some (.entry t v)
  | other => (m.handler? other .newIndex).map .handler

theorem probe_newIndex {current key : Val} {m : Machine F S} {x : Found}
    (h : m.found current key = some x) : probe .newIndex current key m = .ok x m := by
  have hmeta := metamethod_eq current .newIndex m
  cases current with
  | table t =>
    unfold found at h
    unfold probe
    dsimp only at h ⊢
    rw [bind_of_ok (show tableAt t m = .ok (m.heap.table t) m from rfl)]
    split at h
    · rename_i hnil
      rw [if_pos hnil, bind_of_ok hmeta]
      cases hh : m.handler? (.table t) .newIndex <;> rw [hh] at h <;> cases h <;> rfl
    · rename_i hnil
      rw [if_neg hnil]
      cases h
      rfl
  | nil | bool | int | float | str | fn | co =>
    unfold found at h
    unfold probe
    dsimp only at h ⊢
    rw [bind_of_ok hmeta]
    cases hh : m.handler? _ .newIndex with
    | none => simp [hh] at h
    | some handler =>
      rw [hh] at h
      cases h
      rfl

/-- The table that takes a write at a key of a value, if no function does; at most `limit`
handlers are followed. -/
def writeTarget? (m : Machine F S) (key : Val) : Nat → Val → Option TableId
  | 0, current =>
    match m.found current key with
    | some (.entry t _) => some t
    | _ => none
  | limit + 1, current =>
    match m.found current key with
    | some (.entry t _) => some t
    | some (.handler h) => if h.isFunction then none else m.writeTarget? key limit h
    | none => none

/-- Where a write goes depends on the objects and the metatables only. -/
theorem writeTarget?_congr (m m' : Machine F S) (hheap : m'.heap = m.heap)
    (hworld : m'.world = m.world) (key : Val) (limit : Nat) (current : Val) :
    m'.writeTarget? key limit current = m.writeTarget? key limit current := by
  have hfound : ∀ current, m'.found current key = m.found current key := by
    intro current
    simp only [found, handler?, metatable?, hheap, hworld]
  induction limit generalizing current with
  | zero => simp only [writeTarget?, hfound]
  | succ limit ih => simp only [writeTarget?, hfound, ih]

/-! ## Edits of the machine -/

/-- A machine in which a table has been replaced. -/
def withTable (m : Machine F S) (t : TableId) (u : Table) : Heap F :=
  { m.heap with tables := m.heap.tables.modify t.index fun _ => u }

/-- A step makes an edit of a table and leaves all other objects alone; if the edit fails, so does
the step, and it leaves all objects alone. -/
def Performs {α : Type} (m : Machine F S) (t : TableId) (e : Table.Edit)
    (r : EStateM.Result Unwind (Machine F S) α) : Prop :=
  match (m.heap.table t).edit e with
  | .ok u => ∃ a m', r = .ok a m' ∧ m'.heap = m.withTable t u
  | .error c => ∃ m', r = .error (.fault (.invalidKey c)) m' ∧ m'.heap = m.heap

theorem modify_eq (m : Machine F S) (t : TableId) (f : Table → Table) :
    m.heap.tables.modify t.index f = m.heap.tables.modify t.index fun _ => f (m.heap.table t) := by
  refine Array.ext (by simp) fun i hi hi' => ?_
  simp only [Array.getElem_modify]
  by_cases h : t.index = i
  · subst h
    have hlt : t.index < m.heap.tables.size := by simpa using hi
    simp [Heap.table, hlt]
  · simp [h]

namespace Performs

variable {α β : Type} {m m₁ : Machine F S} {t : TableId} {e : Table.Edit}

theorem ofOk {r : EStateM.Result Unwind (Machine F S) α} {u : Table}
    (he : (m.heap.table t).edit e = .ok u)
    (h : ∃ a m', r = .ok a m' ∧ m'.heap = m.withTable t u) : m.Performs t e r := by
  unfold Performs
  rw [he]
  exact h

theorem ofError {r : EStateM.Result Unwind (Machine F S) α} {c : InvalidKey}
    (he : (m.heap.table t).edit e = .error c)
    (h : ∃ m', r = .error (.fault (.invalidKey c)) m' ∧ m'.heap = m.heap) : m.Performs t e r := by
  unfold Performs
  rw [he]
  exact h

/-- What comes before and leaves the objects alone. -/
theorem after {r : EStateM.Result Unwind (Machine F S) α} (h : m₁.Performs t e r)
    (hheap : m₁.heap = m.heap) : m.Performs t e r := by
  unfold Performs withTable at h ⊢
  rw [hheap] at h
  exact h

/-- What follows and leaves the objects alone. -/
theorem andThen {x : M F S α} {f : α → M F S β} (h : m.Performs t e (x m))
    (hf : ∀ a m', ∃ b u, f a m' = .ok b u ∧ u.heap = m'.heap) : m.Performs t e ((x >>= f) m) := by
  unfold Performs at h ⊢
  split
  · rename_i u hu
    rw [hu] at h
    obtain ⟨a, m', hx, hheap⟩ := h
    obtain ⟨b, m'', hf, hheap'⟩ := hf a m'
    exact ⟨b, m'', (bind_of_ok hx).trans hf, hheap'.trans hheap⟩
  · rename_i c hc
    rw [hc] at h
    obtain ⟨m', hx, hheap⟩ := h
    exact ⟨m', bind_of_error hx, hheap⟩

end Performs

theorem setTable_performs (m : Machine F S) (t : TableId) (key value : Val) :
    m.Performs t (.set key value) (setTable t key value m) := by
  unfold setTable
  cases hkey : key.toKey with
  | error c =>
    have he : (m.heap.table t).edit (.set key value) = .error c := by
      rw [Table.edit, Table.set, hkey]
      rfl
    exact .ofError he ⟨m, rfl, rfl⟩
  | ok k =>
    have he : (m.heap.table t).edit (.set key value) = .ok ((m.heap.table t).insert k value) := by
      rw [Table.edit, Table.set, hkey]
      rfl
    refine .ofOk he ⟨(), _, bind_of_ok (note_ok m _), ?_⟩
    exact congrArg (fun tables => { m.heap with tables := tables }) (m.modify_eq t (·.insert k value))

theorem setList_performs (m : Machine F S) (t : TableId) (first : Int) (values : List Val) :
    m.Performs t (.setList first values) (setList t first values m) := by
  refine .ofOk rfl ⟨(), _, bind_of_ok (note_ok m _), ?_⟩
  exact congrArg (fun tables => { m.heap with tables := tables })
    (m.modify_eq t (·.setList first values))

/-- A write that no function takes. -/
theorem newIndexWithin_performs {P : Perform F S} (scratch : View) {key value current : Val}
    {limit : Nat} {t : TableId} {m : Machine F S} (h : m.writeTarget? key limit current = some t) :
    m.Performs t (.set key value) (newIndexWithin P scratch current key value limit m) := by
  induction limit generalizing current m with
  | zero =>
    unfold newIndexWithin
    unfold writeTarget? at h
    cases hfound : m.found current key with
    | none => rw [hfound] at h; cases h
    | some x =>
      rw [hfound] at h
      rw [bind_of_ok (probe_newIndex hfound)]
      cases x with
      | entry u v => cases h; exact setTable_performs m t key value
      | handler x => cases h
  | succ limit ih =>
    unfold newIndexWithin
    unfold writeTarget? at h
    cases hfound : m.found current key with
    | none => rw [hfound] at h; cases h
    | some x =>
      rw [hfound] at h
      rw [bind_of_ok (probe_newIndex hfound)]
      cases x with
      | entry u v => cases h; exact setTable_performs m t key value
      | handler x =>
        dsimp only at h ⊢
        split at h
        · cases h
        · rename_i hfunction
          obtain ⟨trace, htrace⟩ := record_ok m fun _ => .lookupHandler .newIndex current.kind key.kind
          rw [bind_of_ok htrace, if_neg hfunction]
          rw [← m.writeTarget?_congr { m with trace := trace } rfl rfl] at h
          exact (ih h).after rfl

end Machine

open Table (Edit)

/-! ## Steps of a body, seen from the machine -/

namespace Body

variable {α β : Type}

/-- A step of a body on a frame, with nothing but its ending. -/
def on (x : Body F S α) (frame : Frame) : M F S Unit := fun m =>
  match x ⟨frame, m⟩ with
  | .ok _ s => .ok () s.machine
  | .error e s => .error e s.machine

theorem on_bind {x : Body F S α} {f : α → Body F S β} {frame frame' : Frame} {m m' : Machine F S}
    {a : α} (h : x ⟨frame, m⟩ = .ok a ⟨frame', m'⟩) :
    (x >>= f).on frame m = (f a).on frame' m' := by
  unfold on
  rw [bind_of_ok h]

theorem on_lift (x : M F S α) (b : β) (frame : Frame) :
    (lift x >>= fun _ => pure b).on frame = x >>= fun _ => pure () := by
  funext m
  unfold on lift
  simp only [bind, EStateM.bind]
  cases x m <;> rfl

theorem scratch_eq (frame : Frame) (m : Machine F S) : ∃ view stack trace,
    scratch ⟨frame, m⟩ =
      .ok view ⟨frame, { m with thread := { m.thread with stack := stack }, trace := trace }⟩ :=
  ⟨_, _, _, rfl⟩

end Body

/-! ## Ways to write -/

/-- What writes to a table. -/
inductive TableOp (F S : Type)
  | set (t : TableId) (key value : Val)
  | setList (t : TableId) (first : Int) (values : List Val)
  /-- The library function on the live slots of a window. -/
  | rawset (args : View)
  /-- An operation of a body on a frame. -/
  | body (perform : Perform F S) (function : FnId) (proto : Proto) (pc : Nat) (op : Op)
    (frame : Frame)

/-- The slot behind a span. -/
def Count.last (base top : Nat) : Count → Nat
  | .fixed n => base + n.toNat
  | .open => max top base

theorem Interpreter.spanValues_ok (base : Nat) (count : Count) (frame : Frame) (m : Machine F S) :
    spanValues base count ⟨frame, m⟩ =
      .ok (frame.view.values m.thread.stack m.heap.cells base (count.last base frame.view.top))
        ⟨frame, m⟩ := by
  cases count <;> rfl

/-- The edit that an operation of a body makes on a frame, and the table that it is made of. -/
def Op.edit? (m : Machine F S) (frame : Frame) (op : Op) : Option (TableId × Edit) :=
  let value (r : Nat) := frame.view.get m.thread.stack m.heap.cells r
  match op with
  | .append table base count first =>
    match value table.toNat with
    | .table t =>
      let last := count.last base.toNat frame.view.top
      let values := frame.view.values m.thread.stack m.heap.cells base.toNat last
      some (t, .setList first.toNat values)
    | _ => none
  | .newIndex object key v =>
    (m.writeTarget? (value key.toNat) m.world.config.maxMetaChain (value object.toNat)).map
      (·, .set (value key.toNat) (value v.toNat))
  | _ => none

namespace TableOp

/-- The edit that an operation makes, and the table that it is made of. -/
def edit? (m : Machine F S) : TableOp F S → Option (TableId × Edit)
  | .set t key value => some (t, .set key value)
  | .setList t first values => some (t, .setList first values)
  | .rawset args =>
    let value (i : Nat) := args.get m.thread.stack m.heap.cells i
    match value 0 with
    | .table t =>
      if 2 ≤ args.top then
        some (t, .set (value 1) (if 3 ≤ args.top then value 2 else .nil))
      else none
    | _ => none
  | .body _ _ _ _ op frame => op.edit? m frame

/-- An operation, with nothing but its ending. -/
def run [HostFunction F] : TableOp F S → M F S Unit
  | .set t key value => setTable t key value
  | .setList t first values => Machine.setList t first values
  | .rawset args => Base.rawset args
  | .body perform function proto pc op frame =>
    (Interpreter.execute perform function proto pc op).on frame

/-- **Every write is one edit.** -/
theorem run_performs [HostFunction F] {op : TableOp F S} {m : Machine F S} {t : TableId} {e : Edit}
    (h : op.edit? m = some (t, e)) : m.Performs t e (op.run m) := by
  cases op with
  | set u key value => cases h; exact setTable_performs m t key value
  | setList u first values => cases h; exact setList_performs m t first values
  | rawset args =>
    simp only [edit?] at h
    split at h
    · rename_i u htable
      split at h
      · rename_i htop
        cases h
        have harg : ∀ i, i ≤ args.top → i ≠ 0 →
            Args.arg args i m = .ok (args.get m.thread.stack m.heap.cells (i - 1)) m := by
          intro i hi h0
          unfold Args.arg
          rw [if_neg (by omega)]
          rfl
        have hcheck : Args.checkTable args 1 "rawset" m = .ok t m := by
          unfold Args.checkTable
          rw [bind_of_ok (harg 1 (by omega) nofun), htable]
          rfl
        have hkey : Args.checkAny args 2 "rawset" m =
            .ok (args.get m.thread.stack m.heap.cells 1) m := by
          unfold Args.checkAny
          rw [if_neg (by omega)]
          exact harg 2 htop nofun
        have hvalue : Args.arg args 3 m =
            .ok (if 3 ≤ args.top then args.get m.thread.stack m.heap.cells 2 else .nil) m := by
          split
          · rename_i h3
            exact harg 3 h3 nofun
          · unfold Args.arg
            rw [if_pos (by omega)]
            rfl
        unfold TableOp.run Base.rawset
        dsimp only
        rw [bind_of_ok hcheck, bind_of_ok hkey, bind_of_ok hvalue]
        exact (setTable_performs m t _ _).andThen fun _ m' => ⟨(), _, rfl, rfl⟩
      · cases h
    · cases h
  | body P f p pc op frame =>
    cases op with
    | append table base count first =>
      simp only [edit?, Op.edit?] at h
      split at h
      · rename_i u htable
        cases h
        have hvalue : Body.getSlot table.toNat ⟨frame, m⟩ = .ok (.table t) ⟨frame, m⟩ :=
          congrArg (EStateM.Result.ok · _) htable
        unfold TableOp.run Interpreter.execute
        dsimp only
        rw [Body.on_bind hvalue]
        unfold Interpreter.appendSpan
        dsimp only
        rw [bind_assoc, Body.on_bind (Interpreter.spanValues_ok ..), Body.on_lift]
        exact (setList_performs m t _ _).andThen fun _ m' => ⟨(), _, rfl, rfl⟩
      · cases h
    | newIndex object key v =>
      simp only [edit?, Op.edit?, Option.map_eq_some_iff] at h
      obtain ⟨u, htarget, he⟩ := h
      cases he
      have hvalue (r : Reg) : Body.getSlot r.toNat ⟨frame, m⟩ =
          .ok (frame.view.get m.thread.stack m.heap.cells r.toNat) ⟨frame, m⟩ := rfl
      unfold TableOp.run Interpreter.execute
      dsimp only
      rw [Body.on_bind (hvalue object), Body.on_bind (hvalue key), Body.on_bind (hvalue v)]
      obtain ⟨scratch, stack, trace, hscratch⟩ := Body.scratch_eq { frame with index := pc + 1 } m
      rw [Body.on_bind (x := Body.setIndex (pc + 1)) rfl, Body.on_bind hscratch, Body.on_lift]
      rw [← m.writeTarget?_congr { m with
        thread := { m.thread with stack := stack }, trace := trace } rfl rfl] at htarget
      exact ((newIndexWithin_performs scratch htarget).andThen fun _ m' => ⟨(), _, rfl, rfl⟩).after rfl
    | _ => cases h

end TableOp

/-! ## Histories -/

/-- After a step a table still has its entries; its metatable may be another one. -/
def Machine.Spares (m m' : Machine F S) (t : TableId) : Prop :=
  m.heap.tables.size ≤ m'.heap.tables.size ∧
    ∃ meta?, m'.heap.table t = ⟨(m.heap.table t).array, (m.heap.table t).hash, meta?⟩

/-- A stretch of a run in which the operations on a table make some edits of it, in order.
Whatever happens in between spares its entries. -/
inductive History [HostFunction F] (t : TableId) (m : Machine F S) :
    List Edit → Machine F S → Prop
  | start : History t m [] m
  | edit {edits : List Edit} {m₁ m₂ : Machine F S} {op : TableOp F S} {e : Edit}
    (h : History t m edits m₁) (hop : op.edit? m₁ = some (t, e)) (hrun : EndsIn (op.run m₁) m₂) :
    History t m (edits ++ [e]) m₂
  | other {edits : List Edit} {m₁ m₂ : Machine F S} (h : History t m edits m₁)
    (hspares : m₁.Spares m₂ t) : History t m edits m₂

section Histories

variable {t : TableId} {f : Val → Val}

/-- The table of an edit afterwards. -/
theorem Machine.Performs.table [HostFunction F] {α : Type} {m m' : Machine F S} {e : Edit}
    {r : EStateM.Result Unwind (Machine F S) α} (h : m.Performs t e r) (hend : EndsIn r m')
    (ht : t.index < m.heap.tables.size) :
    m'.heap.tables.size = m.heap.tables.size ∧
      m'.heap.table t = ((m.heap.table t).edit e).toOption.getD (m.heap.table t) := by
  unfold Performs at h
  cases he : (m.heap.table t).edit e with
  | ok u =>
    rw [he] at h
    obtain ⟨a, m₁, rfl, hheap⟩ := h
    obtain rfl := hend
    rw [hheap, withTable]
    exact ⟨by simp, by simp [Heap.table, ht, Except.toOption, Array.getElem_modify]⟩
  | error c =>
    rw [he] at h
    obtain ⟨m₁, rfl, hheap⟩ := h
    obtain ⟨-, rfl⟩ := hend
    rw [hheap]
    exact ⟨rfl, rfl⟩

/-- An edit of a table spares all others. -/
theorem Machine.Performs.spares [HostFunction F] {α : Type} {u : TableId} {m m' : Machine F S}
    {e : Edit} {r : EStateM.Result Unwind (Machine F S) α} (h : m.Performs u e r)
    (hend : EndsIn r m') (hu : u ≠ t) : m.Spares m' t := by
  have hindex : u.index ≠ t.index := fun h => hu (congrArg TableId.mk h)
  unfold Performs at h
  cases he : (m.heap.table u).edit e with
  | ok v =>
    rw [he] at h
    obtain ⟨a, m₁, rfl, hheap⟩ := h
    obtain rfl := hend
    rw [Spares, hheap, withTable]
    refine ⟨by simp, (m.heap.table t).metatable, ?_⟩
    simp [Heap.table, Array.getElem?_modify, hindex]
  | error c =>
    rw [he] at h
    obtain ⟨m₁, rfl, hheap⟩ := h
    obtain ⟨-, rfl⟩ := hend
    rw [Spares, hheap]
    exact ⟨Nat.le_refl _, _, rfl⟩

/-- **Along a history** a table holds what its edits have written. -/
theorem History.represents [HostFunction F] {m m' : Machine F S} {edits : List Edit}
    (h : History t m edits m') (ht : t.index < m.heap.tables.size) (hsound : (m.heap.table t).Sound)
    (hf : (m.heap.table t).Represents f) :
    t.index < m'.heap.tables.size ∧ (m'.heap.table t).Sound ∧ (m'.heap.table t).Represents fun k =>
      (Table.lastWritten? (edits.flatMap Edit.writes) k).getD (f k) := by
  induction h with
  | start => exact ⟨ht, hsound, hf⟩
  | @edit edits m₁ m₂ op e h hop hrun ih =>
    obtain ⟨ht₁, hsound₁, hf₁⟩ := ih
    obtain ⟨hsize, htable⟩ := (TableOp.run_performs hop).table hrun ht₁
    rw [Table.edit_eq] at htable
    refine ⟨hsize ▸ ht₁, htable ▸ (hsound₁.written e.writes).1, ?_⟩
    have hwritten := hsound₁.represents_written hf₁ e.writes
    rw [← htable] at hwritten
    rw [List.flatMap_append, List.flatMap_singleton]
    simpa only [Table.lastWritten?_append, Option.getD_or] using hwritten
  | other h hspares ih =>
    obtain ⟨ht₁, hsound₁, hf₁⟩ := ih
    obtain ⟨hsize, meta?, htable⟩ := hspares
    rw [htable]
    exact ⟨Nat.lt_of_lt_of_le ht₁ hsize, hsound₁.ofMetatable meta?, hf₁⟩

end Histories

/-! ## Along a run -/

/-- Watches that tables change by writes only. -/
def Watch.tables (start : Machine F S) (alarm : M F S Unit) : Watch F S where
  within _ m := ∀ t, (start.heap.table t).Becomes (m.heap.table t)
  yields _ := True
  alarm := alarm

/-- **Whatever a run does, its tables change by writes.** -/
def Regime.tables (start : Machine F S) (alarm : M F S Unit) :
    Regime (Watch.tables start alarm) where
  inv := (Watch.tables start alarm).within
  lost _ _ _ := True
  permits _ _ := True
  within h := h
  quiet h hq t := (h t).trans (hq.tables t)
  lost_quiet _ _ := trivial
  host _ h := h
  enter _ h _ := h
  leave h := h
  lost_leave _ := trivial
  enterBoundary h := h
  leaveBoundary h := h
  yield _ _ _ _ := trivial
  yieldNative _ _ _ _ := trivial
  permits_yield _ := trivial
  link _ _ := trivial
  permits_boundary := trivial
  permits_link _ := trivial
  create _ h := h
  resume h _ := h
  permits_resume := trivial
  returned _ h := h
  yielded _ h _ := h

theorem tables_become [HostBody F S] [QuietHost F S] (n : Nat) (request : Request)
    {m m' : Machine F S} (h : EndsIn (perform n request m) m') (t : TableId) :
    (m.heap.table t).Becomes (m'.heap.table t) := by
  let G : Regime (Watch.tables m (pure ())) := .tables m (pure ())
  exact G.inv_of_meets (G.perform_agrees (fun _ _ _ _ => trivial) n [] request m fun _ => .refl) h t

/-- **Tables represent maps.** An empty table is sound and represents the empty map. Setting an
entry of a sound table changes the map at the normal form of the key and nowhere else, and the
table stays sound; it fails for nil and not-a-number only. The length of a sound table is a
border, and the table is empty if the map is. Every operation that writes to a table makes one
edit of it, or fails and changes no object; so along any history of operations a sound table
stays sound and has at each key what was last written there. Whatever a run carries out, it
keeps all tables sound. -/
theorem tables_represent_maps :
    (Table.empty.Sound ∧ Table.empty.Represents fun _ => .nil) ∧
    (∀ (t : Table) f key value, t.Sound → t.Represents f →
      match t.set key value with
      | .ok u => ∃ k, key.toKey = .ok k ∧ u.Sound ∧
          u.Represents fun k' => if k' = k then value else f k'
      | .error c => key.toKey = .error c ∧ (key = .nil ∨ ∃ x, key = .float x ∧ x.isNaN)) ∧
    (∀ x n, x.toInteger? = some n.toInt → (Val.float x).toKey = (Val.int n).toKey) ∧
    (∀ t : Table, t.Sound → (t.len = 0 ∨ t.get (.ofNat t.len) ≠ .nil) ∧
      (∀ key, IsIndex key t.len → t.get key = .nil) ∧
      (t.isEmpty ↔ ∀ key, t.get key = .nil)) ∧
    (∀ (op : TableOp Empty PUnit) m t e, op.edit? m = some (t, e) → m.Performs t e (op.run m)) ∧
    (∀ t (m m' : Machine Empty PUnit) edits f, History t m edits m' →
      t.index < m.heap.tables.size → (m.heap.table t).Sound → (m.heap.table t).Represents f →
      (m'.heap.table t).Sound ∧ (m'.heap.table t).Represents fun k =>
        (Table.lastWritten? (edits.flatMap Edit.writes) k).getD (f k)) ∧
    ∀ n request (m m' : Machine Empty PUnit), EndsIn (perform n request m) m' →
      (∀ t, (m.heap.table t).Sound) → ∀ t, (m'.heap.table t).Sound := by
  refine ⟨⟨Table.sound_empty, Table.represents_empty⟩, fun t f key value hsound hf => ?_,
    fun x n => Val.toKey_float, fun t h => ⟨?_, fun key hkey => ?_, h.isEmpty_iff⟩,
    fun op m t e => TableOp.run_performs, fun t m m' edits f h ht hsound hf =>
      (h.represents ht hsound hf).2, fun n request m m' h hsound t =>
      (tables_become n request h t).sound (hsound t)⟩
  · unfold Table.set
    cases hkey : key.toKey with
    | ok k =>
      exact ⟨k, rfl, hsound.insert (Val.toKey_toKey hkey) value, hsound.represents_insert hf k value⟩
    | error c => exact ⟨rfl, Val.toKey_error_iff.1 ⟨c, hkey⟩⟩
  · refine (Nat.eq_zero_or_pos t.len).imp_right fun hpos => ?_
    obtain ⟨i, hi⟩ := Nat.exists_eq_succ_of_ne_zero (Nat.pos_iff_ne_zero.1 hpos)
    exact h.lookup_len hi
  · have hbehind := h.lookup_behind hkey
    obtain ⟨i, rfl, -⟩ := hkey
    exact hbehind

end ScriptCore
