import ScriptCore.Proofs.Operands

/-!
# Contracts that bodies break

A step can end with a broken contract. The steps of the machine on which operations are made end
early at most with a fault that programs can catch (`Lawful`), so what an operation of a checked
body can break by itself is read off its text (`prepare_breaks`): an append to what is no table, and
a capture of a slot without a cell. With no tail call pending, the completion of an operation that
may suspend does not fail at all (`complete_ok`).
-/

namespace ScriptCore

section Lawful

variable {σ α β : Type}

/-- The contracts that a step breaks from a state are among `V`. -/
def Breaks (V : Violation → Prop) (x : EStateM Unwind σ α) (s : σ) : Prop :=
  ∀ v t, x s = .error (.fault (.contract v)) t → V v

/-- A step that ends early at most with a fault that a program can catch. So it breaks no
contract. -/
def Lawful (x : EStateM Unwind σ α) : Prop :=
  ∀ s e t, x s = .error e t → ∃ f, e = .fault f ∧ f.isCatchable

theorem Breaks.of_ok {V : Violation → Prop} {x : EStateM Unwind σ α} {s t : σ} {a : α}
    (h : x s = .ok a t) : Breaks V x s := by
  intro v u hx
  cases h.symm.trans hx

theorem Breaks.bind {V : Violation → Prop} {x : EStateM Unwind σ α} {f : α → EStateM Unwind σ β}
    {s : σ} (hx : Breaks V x s) (hf : ∀ a t, x s = .ok a t → Breaks V (f a) t) :
    Breaks V (x >>= f) s := by
  intro v t h
  cases hxs : x s with
  | ok a u => exact hf a u hxs v t ((bind_of_ok hxs).symm.trans h)
  | error e u =>
    cases (bind_of_error hxs).symm.trans h
    exact hx v t hxs

namespace Lawful

theorem breaks {x : EStateM Unwind σ α} (h : Lawful x) {V : Violation → Prop} {s : σ} :
    Breaks V x s := by
  intro v t hx
  obtain ⟨f, hfault, hf⟩ := h s _ t hx
  cases hfault
  cases hf

theorem of_ok {x : EStateM Unwind σ α} (h : ∀ s, ∃ a t, x s = .ok a t) : Lawful x := by
  intro s e t hx
  obtain ⟨a, u, hok⟩ := h s
  cases hok.symm.trans hx

theorem pure (a : α) : Lawful (pure a : EStateM Unwind σ α) := of_ok fun s => ⟨a, s, rfl⟩

theorem bind {x : EStateM Unwind σ α} {f : α → EStateM Unwind σ β} (hx : Lawful x)
    (hf : ∀ a, Lawful (f a)) : Lawful (x >>= f) := by
  intro s e t h
  rcases error_of_bind h with hxs | ⟨a, u, -, hfa⟩
  · exact hx s e t hxs
  · exact hf a u e t hfa

end Lawful

end Lawful

namespace Machine

variable {F S α : Type}

/-! ## Steps of the machine -/

theorem fail_lawful {f : Fault} (h : f.isCatchable) : Lawful (fail f : M F S α) := by
  rintro s e t hx
  cases hx
  exact ⟨f, rfl, h⟩

theorem orFail_lawful {e : Except Fault α} (h : ∀ f, e = .error f → f.isCatchable) :
    Lawful (orFail e : M F S α) := by
  cases e with
  | ok a => exact .pure a
  | error f => exact fail_lawful (h f rfl)

theorem orOverflow_breaks (V : Violation → Prop) (a? : Option α) (m : Machine F S) :
    Breaks V (orOverflow a?) m := by
  rintro v t hx
  cases a? <;> cases hx

theorem get_lawful : Lawful (get : M F S (Machine F S)) := .of_ok fun m => ⟨m, m, rfl⟩

theorem record_lawful (e : Unit → TraceEvent) : Lawful (record e : M F S Unit) :=
  .of_ok fun m => (record_ok m e).elim fun _ h => ⟨_, _, h⟩

theorem note_lawful (w : Write) : Lawful (note w : M F S Unit) := .of_ok fun m => ⟨_, _, note_ok m w⟩

theorem onHeap_lawful (f : Heap F → α × Heap F) : Lawful (onHeap f : M F S α) :=
  .of_ok fun _ => ⟨_, _, rfl⟩

theorem onStack_lawful (f : Stack → α × Stack) : Lawful (onStack f : M F S α) :=
  .of_ok fun m => (onStack_ok f m).elim fun _ h => ⟨_, _, h⟩

theorem setTable_lawful (t : TableId) (key value : Val) :
    Lawful (setTable t key value : M F S Unit) := by
  unfold setTable
  split
  · exact (note_lawful _).bind fun _ => onHeap_lawful _
  · exact fail_lawful rfl

theorem store_lawful (v : View) (i : Nat) (x : Val) : Lawful (store v i x : M F S Unit) := by
  refine Lawful.bind (get_lawful.bind fun _ => .pure _) fun slot => ?_
  cases slot with
  | cell c => exact (note_lawful _).bind fun _ => onHeap_lawful _
  | value _ => exact onStack_lawful fun s => ((), v.put s i (.value x))

theorem metamethod_lawful (v : Val) (e : Event) : Lawful (metamethod v e : M F S (Option Val)) := by
  have hmeta : Lawful (metatableOf v : M F S (Option TableId)) := by
    unfold metatableOf
    refine get_lawful.bind fun m => ?_
    split <;> exact .pure _
  refine hmeta.bind fun t? => ?_
  split
  · exact .pure _
  · exact get_lawful.bind fun _ => .pure _

theorem handlerOf_lawful (event : Event) (lhs rhs : Val) :
    Lawful (handlerOf event lhs rhs : M F S (Option Val)) := by
  refine (metamethod_lawful lhs event).bind fun h? => ?_
  split
  · exact .pure _
  · exact metamethod_lawful rhs event

theorem probe_lawful (event : Event) (current key : Val) :
    Lawful (probe event current key : M F S Found) := by
  unfold probe
  split
  · refine Lawful.bind (get_lawful.bind fun _ => .pure _) fun table => ?_
    dsimp only
    split
    · refine (metamethod_lawful _ event).bind fun h? => ?_
      split <;> exact .pure _
    · exact .pure _
  · refine (metamethod_lawful _ event).bind fun h? => ?_
    split
    · exact .pure _
    · exact fail_lawful rfl

/-! ## Plans -/

theorem planIndex_lawful (object key : Val) : Lawful (planIndex object key : M F S Intent) := by
  refine Lawful.bind (get_lawful.bind fun _ => .pure _) fun config => ?_
  generalize config.maxMetaChain = limit
  induction limit generalizing object with
  | zero =>
    unfold planIndexWithin
    refine (probe_lawful _ object key).bind fun found => ?_
    cases found with
    | entry t v => exact .pure _
    | handler h => exact fail_lawful rfl
  | succ limit ih =>
    unfold planIndexWithin
    refine (probe_lawful _ object key).bind fun found => ?_
    cases found with
    | entry t v => exact .pure _
    | handler h =>
      refine (record_lawful _).bind fun _ => ?_
      split
      · exact .pure _
      · exact ih h

theorem planNewIndex_lawful (object key value : Val) :
    Lawful (planNewIndex object key value : M F S Intent) := by
  refine Lawful.bind (get_lawful.bind fun _ => .pure _) fun config => ?_
  generalize config.maxMetaChain = limit
  induction limit generalizing object with
  | zero =>
    unfold planNewIndexWithin
    refine (probe_lawful _ object key).bind fun found => ?_
    cases found with
    | entry t v => exact (setTable_lawful t key value).bind fun _ => .pure _
    | handler h => exact fail_lawful rfl
  | succ limit ih =>
    unfold planNewIndexWithin
    refine (probe_lawful _ object key).bind fun found => ?_
    cases found with
    | entry t v => exact (setTable_lawful t key value).bind fun _ => .pure _
    | handler h =>
      refine (record_lawful _).bind fun _ => ?_
      split
      · exact .pure _
      · exact ih h

theorem planArith_lawful (op : BinOp) (lhs rhs : Val) :
    Lawful (planArith op lhs rhs : M F S Intent) := by
  refine (orFail_lawful fun _ h => (BinOp.apply_ordinary h).isCatchable).bind fun v? => ?_
  split
  · exact .pure _
  · refine (handlerOf_lawful _ lhs rhs).bind fun h? => ?_
    split
    · exact (orFail_lawful fun _ h => (BinOp.missing_ordinary h).isCatchable).bind fun _ => .pure _
    · exact (record_lawful _).bind fun _ => .pure _

theorem planUnary_lawful (op : UnOp) (v : Val) : Lawful (planUnary op v : M F S Intent) := by
  refine (orFail_lawful fun _ h => (UnOp.apply_ordinary h).isCatchable).bind fun v? => ?_
  split
  · exact .pure _
  · have hmissing : Lawful (do
        let m ← get
        return .value (← orFail (op.missing (fun t => (m.heap.table t).len) v)) : M F S Intent) :=
      get_lawful.bind fun _ => (orFail_lawful fun _ h => (UnOp.missing_ordinary h).isCatchable).bind fun _ => .pure _
    have hasks : ∀ h, Lawful (do
        record fun _ => .unaryHandler op v.kind
        return .ask h [v, v] : M F S Intent) :=
      fun h => (record_lawful _).bind fun _ => .pure _
    dsimp only
    split
    · refine (metamethod_lawful v _).bind fun h? => ?_
      cases h? with
      | none => exact hmissing
      | some h => exact hasks h
    · exact (Lawful.pure none).bind fun h? => by
        cases h? with
        | none => exact hmissing
        | some h => exact hasks h

/-! ## Cells of closures -/

end Machine

/-- A closure over a body, with a cell for each variable that the body captures. -/
def Callable.ClosureOf {F : Type} (c : Callable F) (p : Proto) : Prop :=
  match c with
  | .closure q cells => q = p ∧ cells.size = p.upvalues.length
  | _ => False

theorem Callable.Kept.closureOf {F : Type} {c d : Callable F} {p : Proto} (h : c.Kept d)
    (hc : c.ClosureOf p) : d.ClosureOf p := by
  cases h with
  | same => exact hc
  | rebound _ _ _ size => exact ⟨hc.1, size.trans hc.2⟩

namespace Machine

variable {F S α : Type}

theorem freshCells_ok (cells : Array CellId) (n : Nat) (m : Machine F S) :
    ∃ cells' t, freshCells cells n m = .ok cells' t ∧ cells'.size = cells.size + n := by
  induction n generalizing cells m with
  | zero => exact ⟨cells, m, rfl, rfl⟩
  | succ n ih =>
    obtain ⟨cells', t, h, hsize⟩ := ih (cells.push ⟨m.heap.cells.size⟩)
      { m with heap := { m.heap with cells := m.heap.cells.push .nil } }
    refine ⟨cells', t, h, ?_⟩
    rw [hsize, Array.size_push]
    omega

/-- A new closure has as many cells as its body captures. -/
theorem newClosure_ok (p : Proto) (cells : Array CellId) (m : Machine F S) :
    ∃ f t, newClosure p cells m = .ok f t ∧ (t.heap.function f).ClosureOf p := by
  obtain ⟨cells', t, h, hsize⟩ := freshCells_ok (cells.extract 0 p.upvalues.length)
    (p.upvalues.length - cells.size) m
  refine ⟨⟨t.heap.functions.size⟩, t.pushed (.closure p cells'), bind_of_ok h, ?_⟩
  rw [function_pushed, if_pos rfl]
  refine ⟨rfl, ?_⟩
  rw [hsize, Array.size_extract]
  omega

end Machine

/-! ## Steps of bodies -/

namespace Body

variable {F S α β : Type}

theorem lift_breaks {V : Violation → Prop} {x : M F S α} {s : Active F S}
    (h : Breaks V x s.machine) : Breaks V (lift x) s := by
  intro v t hx
  simp only [lift] at hx
  cases hxs : x s.machine with
  | ok a m => rw [hxs] at hx; cases hx
  | error e m =>
    rw [hxs] at hx
    cases hx
    exact h v m hxs

theorem lift_lawful {x : M F S α} (h : Lawful x) : Lawful (lift x : Body F S α) := by
  intro s e t hx
  simp only [lift] at hx
  cases hxs : x s.machine with
  | ok a m => rw [hxs] at hx; cases hx
  | error e' m =>
    rw [hxs] at hx
    cases hx
    exact h s.machine e m hxs

theorem frame_lawful : Lawful (frame : Body F S Frame) := .of_ok fun s => ⟨s.frame, s, rfl⟩

theorem setIndex_lawful (i : Nat) : Lawful (setIndex i : Body F S Unit) := .of_ok fun _ => ⟨(), _, rfl⟩

theorem getSlot_lawful (i : Nat) : Lawful (getSlot i : Body F S Val) :=
  .of_ok fun _ => ⟨_, _, rfl⟩

theorem setSlot_ok (i : Nat) (v : Val) (s : Active F S) :
    ∃ m, setSlot i v s = .ok () ⟨s.frame, m⟩ := ⟨_, rfl⟩

theorem setSlots_ok (i : Nat) (vs : List Val) (s : Active F S) :
    ∃ m, setSlots i vs s = .ok () ⟨s.frame, m⟩ := by
  induction vs generalizing i s with
  | nil => exact ⟨s.machine, rfl⟩
  | cons v vs ih =>
    obtain ⟨m, h⟩ := setSlot_ok i v s
    obtain ⟨m', h'⟩ := ih (i + 1) ⟨s.frame, m⟩
    exact ⟨m', (bind_of_ok h).trans h'⟩

theorem setTop_ok (n : Nat) (s : Active F S) : ∃ t, setTop n s = .ok () t := ⟨_, rfl⟩

theorem setSlot_lawful (i : Nat) (v : Val) : Lawful (setSlot i v : Body F S Unit) :=
  .of_ok fun s => (setSlot_ok i v s).elim fun _ h => ⟨_, _, h⟩

theorem setSlots_lawful (i : Nat) (vs : List Val) : Lawful (setSlots i vs : Body F S Unit) :=
  .of_ok fun s => (setSlots_ok i vs s).elim fun _ h => ⟨_, _, h⟩

theorem setTop_lawful (n : Nat) : Lawful (setTop n : Body F S Unit) :=
  .of_ok fun s => (setTop_ok n s).elim fun _ h => ⟨_, _, h⟩

theorem slotValues_lawful (first last : Nat) : Lawful (slotValues first last : Body F S (List Val)) :=
  .of_ok fun _ => ⟨_, _, rfl⟩

theorem scratch_lawful : Lawful (scratch : Body F S View) := .of_ok fun _ => ⟨_, _, rfl⟩

end Body

/-- The contracts that a body can break by itself. -/
def Proto.MayBreak (p : Proto) : Violation → Prop
  | .appendTarget body pc =>
    body = p.name ∧ ∃ table base count first, p.code[pc]? = some (.append table base count first)
  | .neverReified child slot body =>
    body = p.name ∧ ∃ q ∈ p.children, child = q.name ∧ q.Captures slot
  | _ => False

/-- Operations that need a cell, a nested body, a table, or a register behind another one. -/
def Op.Needy : Op → Prop
  | .getUpval .. | .setUpval .. | .closure .. | .append .. | .call .. | .tailCall .. => True
  | _ => False

namespace Interpreter

open Machine

variable {F S : Type} {f : FnId} {p q : Proto}

/-- A closure has a cell for each variable that its body captures. -/
theorem capturedCell_ok {m : Machine F S} (hf : (m.heap.function f).ClosureOf p) {idx : Nat}
    (hidx : idx < p.upvalues.length) : ∃ c, capturedCell f p idx m = .ok c m := by
  cases hc : m.heap.function f with
  | closure q cells =>
    rw [hc] at hf
    obtain ⟨rfl, hsize⟩ := hf
    have hfunction : (functionAt f : M F S (Callable F)) m = .ok (.closure q cells) m :=
      congrArg (EStateM.Result.ok · m) hc
    have hcell : cells[idx]? = some cells[idx] := Array.getElem?_eq_getElem (hsize ▸ hidx)
    refine ⟨cells[idx], (bind_of_ok hfunction).trans ?_⟩
    simp only [hcell]
    rfl
  | _ => rw [hc] at hf; exact hf.elim

/-- Capturing what the body around it provides can only fail at a slot without a cell. -/
theorem captureCells_breaks {view : View} {m : Machine F S} (hf : (m.heap.function f).ClosureOf p)
    {ds : List UpvalueDesc} (hds : ∀ d ∈ ds, p.Provides d.capture) (cells : Array CellId) :
    Breaks (fun v => ∃ d ∈ ds, ∃ r, d.capture = .slot r ∧ v = .neverReified q.name r.toNat p.name)
      (captureCells f p q view ds cells) m := by
  induction ds generalizing cells with
  | nil => exact (Lawful.pure cells).breaks
  | cons d ds ih =>
    have hrest : ∀ (c : CellId) v t,
        captureCells f p q view ds (cells.push c) m = .error (.fault (.contract v)) t →
        ∃ e ∈ d :: ds, ∃ r, e.capture = .slot r ∧ v = .neverReified q.name r.toNat p.name := by
      intro c v t h
      obtain ⟨e, he, hv⟩ := ih (fun e he => hds e (List.mem_cons_of_mem _ he)) _ v t h
      exact ⟨e, List.mem_cons_of_mem _ he, hv⟩
    have hprovides := hds d List.mem_cons_self
    unfold captureCells
    cases hd : d.capture with
    | slot r =>
      intro v t h
      have hslot : (slotAt view r.toNat : M F S Slot) m =
        .ok (view.slot m.thread.stack r.toNat) m := rfl
      replace h := (bind_of_ok hslot).symm.trans h
      cases hcell : view.slot m.thread.stack r.toNat with
      | cell c =>
        rw [hcell] at h
        exact hrest c v t h
      | value x =>
        rw [hcell] at h
        cases h
        exact ⟨d, List.mem_cons_self, r, hd, rfl⟩
    | upvalue idx =>
      rw [hd] at hprovides
      obtain ⟨c, hc⟩ := capturedCell_ok hf hprovides
      intro v t h
      exact hrest c v t ((bind_of_ok hc).symm.trans h)

/-! ## Operations -/

theorem span_lawful (base : Nat) (count : Count) :
    Lawful (span base count : Body F S (Nat × Nat)) := by
  cases count with
  | fixed n => exact .pure _
  | «open» => exact Body.frame_lawful.bind fun _ => .pure _

theorem spanValues_lawful (base : Nat) (count : Count) :
    Lawful (spanValues base count : Body F S (List Val)) :=
  (span_lawful base count).bind fun _ => Body.slotValues_lawful _ _

theorem makeClosure_breaks {s : Active F S} (hf : (s.machine.heap.function f).ClosureOf p)
    {idx : Nat} (hq : p.children[idx]? = some q) (hprovides : ∀ d ∈ q.upvalues, p.Provides d.capture) :
    Breaks p.MayBreak (makeClosure f p idx) s := by
  unfold makeClosure
  rw [hq]
  refine Body.frame_lawful.breaks.bind fun frame t hframe => ?_
  cases hframe
  refine Body.lift_breaks (Breaks.bind ?_ fun cells t _ => ?_)
  · intro v t h
    obtain ⟨d, hd, r, hr, rfl⟩ := captureCells_breaks hf hprovides _ v t h
    exact ⟨rfl, q, List.mem_of_getElem? hq, rfl, d, hd, r, hr, rfl⟩
  · have hnew : Lawful (newClosure q cells : M F S FnId) := .of_ok fun m =>
      let ⟨g, t, h, _⟩ := newClosure_ok q cells m
      ⟨g, t, h⟩
    exact (hnew.bind fun _ => .pure _).breaks

theorem settled_breaks {V : Violation → Prop} {pc : Nat} {op : Op} {s : Active F S}
    (h : Breaks V (execute (fun _ => throw .exhausted) f p pc op) s) :
    Breaks V (settled f p pc op) s := by
  refine h.bind fun next t _ => ?_
  cases next <;> exact (Lawful.pure _).breaks

theorem settled_lawful {pc : Nat} {op : Op}
    (h : Lawful (execute (fun _ => throw .exhausted) f p pc op : Body F S Next)) :
    Lawful (settled f p pc op : Body F S Turn) :=
  h.bind fun next => by cases next <;> exact .pure _

theorem ask_lawful {pc : Nat} {x : M F S Intent} (hx : Lawful x) {store : Val → Body F S Unit}
    (hstore : ∀ v, Lawful (store v)) : Lawful (do
      Body.setIndex (pc + 1)
      let scratch ← Body.scratch
      let plan ← Body.lift x
      follow pc scratch store plan) := by
  refine (Body.setIndex_lawful _).bind fun _ => Body.scratch_lawful.bind fun scratch =>
    (Body.lift_lawful hx).bind fun plan => ?_
  cases plan with
  | value v => exact (hstore v).bind fun _ => .pure _
  | ask h args => exact (Body.lift_lawful (onStack_lawful _)).bind fun _ => .pure _

/-- Up to its call, an operation that needs none of these breaks no contract. -/
theorem prepare_lawful (f : FnId) (p : Proto) (pc : Nat) {op : Op} (hop : ¬ op.Needy) :
    Lawful (prepare f p pc op : Body F S Turn) := by
  have hget := Body.getSlot_lawful (F := F) (S := S)
  have hset := fun (dst : Reg) v => Body.setSlot_lawful (F := F) (S := S) dst.toNat v
  have hglobals : Lawful (globals : M F S TableId) := get_lawful.bind fun _ => .pure _
  have hstored : ∀ (dst : Reg) (v : Val),
      Lawful (do Body.setSlot dst.toNat v; return Next.goto (pc + 1) : Body F S Next) :=
    fun dst v => (hset dst v).bind fun _ => .pure _
  cases op with
  | getGlobal dst name =>
    exact ask_lawful (hglobals.bind fun _ => planIndex_lawful _ _) (hset dst)
  | setGlobal name src =>
    exact (hget _).bind fun _ => ask_lawful (hglobals.bind fun _ => planNewIndex_lawful _ _ _)
      fun _ => .pure ()
  | index dst object key =>
    exact (hget _).bind fun _ => (hget _).bind fun _ =>
      ask_lawful (planIndex_lawful _ _) (hset dst)
  | newIndex object key value =>
    exact (hget _).bind fun _ => (hget _).bind fun _ => (hget _).bind fun _ =>
      ask_lawful (planNewIndex_lawful _ _ _) fun _ => .pure ()
  | binary op dst lhs rhs =>
    exact (hget _).bind fun _ => (hget _).bind fun _ =>
      ask_lawful (planArith_lawful _ _ _) (hset dst)
  | unary op dst src =>
    cases op with
    | not => exact settled_lawful ((hget _).bind fun _ => hstored dst _)
    | neg | bnot | len =>
      exact (hget _).bind fun _ => ask_lawful (planUnary_lawful _ _) (hset dst)
  | nil dst => exact settled_lawful (hstored dst _)
  | bool dst value => exact settled_lawful (hstored dst _)
  | const dst idx => exact settled_lawful (hstored dst _)
  | move dst src => exact settled_lawful ((hget _).bind fun _ => hstored dst _)
  | varInit var src =>
    exact settled_lawful ((hget _).bind fun _ => Body.frame_lawful.bind fun _ =>
      (Body.lift_lawful ((onHeap_lawful _).bind fun _ => onStack_lawful _)).bind fun _ => .pure _)
  | varStore var src =>
    exact settled_lawful ((hget _).bind fun _ => Body.frame_lawful.bind fun _ =>
      (Body.lift_lawful (store_lawful _ _ _)).bind fun _ => .pure _)
  | newTable dst =>
    exact settled_lawful ((Body.lift_lawful (onHeap_lawful _)).bind fun _ => hstored dst _)
  | jump dest => exact settled_lawful (.pure _)
  | test cond when dest =>
    refine settled_lawful ((hget _).bind fun v => ?_)
    dsimp only
    split <;> exact .pure _
  | ret base count =>
    exact settled_lawful ((spanValues_lawful _ _).bind fun _ =>
      (Body.lift_lawful (.of_ok fun _ => ⟨_, _, rfl⟩)).bind fun _ => .pure _)
  | vararg dst count =>
    refine settled_lawful (Body.frame_lawful.bind fun frame => ?_)
    cases count with
    | fixed n => exact (Body.setSlots_lawful _ _).bind fun _ => .pure _
    | «open» =>
      exact (Body.setSlots_lawful _ _).bind fun _ => (Body.setTop_lawful _).bind fun _ => .pure _
  | getUpval | setUpval | closure | append | call | tailCall => exact (hop trivial).elim

/-- A call that has the first register of its arguments. -/
theorem callFrom_lawful (pc : Nat) (target : Val) (args : Count) (n : Nat) : Lawful (do
    let (first, last) ← span n args
    Body.setIndex (pc + 1)
    let f ← Body.frame
    let window ← Body.lift (setTop (f.view.child first) (last - first))
    return Turn.ask window target : Body F S Turn) :=
  (span_lawful n args).bind fun _ => (Body.setIndex_lawful _).bind fun _ =>
    Body.frame_lawful.bind fun _ => (Body.lift_lawful (onStack_lawful _)).bind fun _ => .pure _

/-- A tail call that has the first register of its arguments. -/
theorem tailCallFrom_lawful (target : Val) (args : Count) (n : Nat) : Lawful (do
    let values ← spanValues n args
    Body.lift (requestTailCall target values)
    return Next.done : Body F S Next) :=
  (spanValues_lawful n args).bind fun _ =>
    (Body.lift_lawful (.of_ok fun _ => ⟨_, _, rfl⟩)).bind fun _ => .pure _

/-- **What a body can break.** Up to its call, an operation of a body breaks at most a contract
of its own. -/
theorem prepare_breaks {pc : Nat} {op : Op} {s : Active F S} (hop : p.code[pc]? = some op)
    (hfits : op.Fits p) (hf : (s.machine.heap.function f).ClosureOf p) :
    Breaks p.MayBreak (prepare f p pc op) s := by
  have hget := Body.getSlot_lawful (F := F) (S := S)
  have hstored : ∀ (dst : Reg) (v : Val),
      Lawful (do Body.setSlot dst.toNat v; return Next.goto (pc + 1) : Body F S Next) :=
    fun dst v => (Body.setSlot_lawful dst.toNat v).bind fun _ => .pure _
  cases op with
  | getUpval dst idx =>
    obtain ⟨c, hc⟩ := capturedCell_ok (S := S) hf (hfits.upvalue _ rfl)
    refine settled_breaks (Breaks.bind (Body.lift_breaks ?_) fun v t _ => (hstored dst v).breaks)
    exact (Breaks.of_ok hc).bind fun _ _ _ => (get_lawful.bind fun _ => .pure _).breaks
  | setUpval idx src =>
    obtain ⟨c, hc⟩ := capturedCell_ok (S := S) hf (hfits.upvalue _ rfl)
    refine settled_breaks ((Body.lift_breaks (.of_ok hc)).bind fun c t _ => ?_)
    exact ((hget _).bind fun _ => (Body.lift_lawful ((note_lawful _).bind fun _ =>
      onHeap_lawful _)).bind fun _ => .pure _).breaks
  | closure dst child =>
    obtain ⟨q, hq, hprovides⟩ := hfits.child _ rfl
    exact settled_breaks ((makeClosure_breaks hf hq hprovides).bind fun v t _ =>
      (hstored dst v).breaks)
  | append table base count first =>
    refine settled_breaks ((hget _).breaks.bind fun v t _ => Breaks.bind ?_ fun _ _ _ =>
      (Lawful.pure _).breaks)
    cases v with
    | table t =>
      exact ((spanValues_lawful _ _).bind fun _ => Body.lift_lawful
        ((note_lawful _).bind fun _ => onHeap_lawful _)).breaks
    | _ =>
      rintro v t h
      cases h
      exact ⟨rfl, _, _, _, _, hop⟩
  | call func args results =>
    exact (hget _).breaks.bind fun v t _ => (Body.lift_breaks (orOverflow_breaks _ _ _)).bind
      fun n t _ => (callFrom_lawful pc v args n).breaks
  | tailCall func args =>
    exact settled_breaks ((hget _).breaks.bind fun v t _ =>
      (Body.lift_breaks (orOverflow_breaks _ _ _)).bind fun n t _ =>
        (tailCallFrom_lawful v args n).breaks)
  | _ => exact (prepare_lawful f p pc id).breaks

end Interpreter

end ScriptCore
