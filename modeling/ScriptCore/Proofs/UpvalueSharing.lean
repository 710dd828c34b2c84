import Mathlib.Algebra.Group.Nat.Defs
import ScriptCore.Proofs.Cells
import ScriptCore.Proofs.GroundedRuns

/-!
# Sharing of captured variables

An `Access` is what a closure does with its variables in a frame, a body that is loaded, or a call of
the debug library. It asks for an operation on captured variables with operands that it finds in the
machine (`Access.asks`), and shows what comes of it (`Access.shown`).

The machine does what the store says: it shows what the store answers and leaves the variables as
the store leaves them, or it fails and changes nothing at all (`Access.run_explained`). Between two
accesses any code may run. So a history of accesses and calls is explained by the store alone, which
needs nothing of the machine but the operands (`explained`).
-/

namespace ScriptCore

open Machine

/-! ## Accesses -/

/-- Where a closure is. -/
structure Site where
  function : FnId
  proto : Proto
  pc : Nat
  frame : Frame

/-- An access to captured variables. -/
inductive Access
  | getUpval (site : Site) (dst : Reg) (idx : UInt16)
  | setUpval (site : Site) (idx : UInt16) (src : Reg)
  | closure (site : Site) (dst : Reg) (child : UInt16)
  /-- A variable comes to life. -/
  | varInit (site : Site) (var src : Reg)
  | varStore (site : Site) (var src : Reg)
  /-- A parameter that closures capture comes to life. -/
  | parameter (view : View) (slot : Nat)
  | load (proto : Proto)
  | getupvalue (args : View)
  | setupvalue (args : View)
  | upvalueid (args : View)
  | upvaluejoin (args : View)

/-- The value of a register. -/
def Site.register (s : Site) (m : Machine Empty PUnit) (r : Reg) : Val :=
  s.frame.view.get m.thread.stack m.heap.cells r.toNat

/-- Does an operation at a site and shows what some registers hold then. -/
def Site.run (s : Site) (P : Perform Empty PUnit) (op : Op) (shown : List Reg) :
    M Empty PUnit (List Slot) := fun m =>
  match Interpreter.execute P s.function s.proto s.pc op ⟨s.frame, m⟩ with
  | .ok _ t => .ok (shown.map fun r => s.frame.view.slot t.machine.thread.stack r.toNat) t.machine
  | .error e t => .error e t.machine

/-- Calls a native function and shows its results. -/
def Builtin.shown (b : Builtin) (P : Perform Empty PUnit) (args : View) :
    M Empty PUnit (List Slot) := do
  runBuiltin P b args
  return (← resultList).map .value

namespace Access

/-- An access to the variables of a machine. -/
def run (P : Perform Empty PUnit) : Access → M Empty PUnit (List Slot)
  | .getUpval s dst idx => s.run P (.getUpval dst idx) [dst]
  | .setUpval s idx src => s.run P (.setUpval idx src) []
  | .closure s dst child => s.run P (.closure dst child) [dst]
  | .varInit s var src => s.run P (.varInit var src) [var]
  | .varStore s var src => s.run P (.varStore var src) []
  | .parameter view slot => do
    let _ ← reify view slot
    return [← slotAt view slot]
  | .load proto => do return [.value (← loadProto proto)]
  | .getupvalue args => Builtin.getupvalue.shown P args
  | .setupvalue args => Builtin.setupvalue.shown P args
  | .upvalueid args => Builtin.upvalueid.shown P args
  | .upvaluejoin args => Builtin.upvaluejoin.shown P args

/-- The operation that an access asks for, if its operands make sense. -/
def asks (m : Machine Empty PUnit) : Access → Option Variables.Op
  | .getUpval s _ idx => some (.get s.function idx.toNat)
  | .setUpval s idx src => some (.set s.function idx.toNat (s.register m src))
  | .closure s _ child => do
    let q ← s.proto.children[child.toNat]?
    return .closure (m.sources s.function s.frame.view q.upvalues)
  | .varInit s _ src => some (.introduce (s.register m src))
  | .varStore s var src =>
    some (.assign (s.frame.view.slot m.thread.stack var.toNat).cell? (s.register m src))
  | .parameter view slot => some (.introduce (view.get m.thread.stack m.heap.cells slot))
  | .load proto =>
    match proto.check with
    | .ok () => some (.load (proto.upvalues.map (·.name)))
    | .error _ => none
  | .getupvalue args | .upvalueid args => do
    let (f, i) ← args.subject? m 1
    return .get f i
  | .setupvalue args => do
    let (f, i) ← args.subject? m 1
    return .set f i (args.argument m 3)
  | .upvaluejoin args => do
    let (f, i) ← args.subject? m 1
    let (g, j) ← args.subject? m 3
    return .join f i g j

/-- What an access shows of an answer; nothing, if it fails. -/
def shown : Access → Variables.Answer → Option (List Slot)
  | .getUpval .., .variable _ _ v => some [.value v]
  | .setUpval .., .variable .. => some []
  | .closure .., .function g | .load _, .function g => some [.value (.fn g)]
  | .varInit .., .cell c | .parameter .., .cell c => some [.cell c]
  | .varStore .., .done | .upvaluejoin _, .done => some []
  | .getupvalue _, .variable name _ v => some [.value (.str name), .value v]
  | .setupvalue _, .variable name .. => some [.value (.str name)]
  | .getupvalue _, .refused | .setupvalue _, .refused => some []
  | .upvalueid _, .variable _ c _ => some [.value (Val.ofNat c.address)]
  | _, _ => none

/-- What the store says of an access: what it shows, and the variables behind it. The machine only
provides the operands. -/
def explanation (a : Access) (m : Machine Empty PUnit) (V : Variables) :
    Option (List Slot × Variables) := do
  let op ← a.asks m
  let (answer, W) := V.step op
  return (← a.shown answer, W)

/-- The machine does what the store says. -/
def Explained (a : Access) (P : Perform Empty PUnit) (m : Machine Empty PUnit) : Prop :=
  match a.explanation m m.heap.variables with
  | some (seen, W) => ∃ t, a.run P m = .ok seen t ∧ m.Moves t ∧ t.heap.variables = W
  | none => ∃ e, a.run P m = .error e m

variable {P : Perform Empty PUnit} {m t : Machine Empty PUnit} {a : Access} {s : Site} {op : Op}

theorem explained_of_some {seen : List Slot} {W : Variables}
    (h : a.explanation m m.heap.variables = some (seen, W)) (hrun : a.run P m = .ok seen t)
    (hmoves : m.Moves t) (hvariables : t.heap.variables = W) : a.Explained P m := by
  unfold Explained
  rw [h]
  exact ⟨t, hrun, hmoves, hvariables⟩

theorem explained_of_none (h : a.explanation m m.heap.variables = none)
    (hrun : ∃ e, a.run P m = .error e m) : a.Explained P m := by
  unfold Explained
  rw [h]
  exact hrun

/-! ## Operations of closures -/

/-- A register in which a slot is put holds it. -/
theorem putSlot_shown (view : View) (i : Nat) (m : Machine Empty PUnit) (x : Slot) : ∃ t,
    putSlot view i x m = .ok () t ∧ t.heap = m.heap ∧ view.slot t.thread.stack i = x := by
  obtain ⟨y, hy⟩ := onStack_ok (fun st => ((), view.put st i x)) m
  refine ⟨_, hy, rfl, ?_⟩
  show (view.put m.thread.stack i x).slot (view.base + i) = x
  rw [View.put, Stack.slot_put, if_pos rfl]

theorem run_of_error {e : Unwind} {x : Active Empty PUnit} {regs : List Reg}
    (h : Interpreter.execute P s.function s.proto s.pc op ⟨s.frame, m⟩ = .error e x) :
    s.run P op regs m = .error e x.machine := by
  unfold Site.run
  rw [h]

theorem run_of_ok {n : Interpreter.Next} {x : Active Empty PUnit} (op : Op) (regs : List Reg)
    (h : Interpreter.execute P s.function s.proto s.pc op ⟨s.frame, m⟩ = .ok n x) :
    s.run P op regs m =
      .ok (regs.map fun r => s.frame.view.slot x.machine.thread.stack r.toNat) x.machine := by
  unfold Site.run
  rw [h]

/-- An operation that stores what it finds in a register. -/
theorem run_stores {x : Body Empty PUnit Val} {v : Val} (op : Op) (dst : Reg)
    (hop : Interpreter.execute P s.function s.proto s.pc op = (do
      Body.setSlot dst.toNat (← x)
      return .goto (s.pc + 1)))
    (hx : x ⟨s.frame, m⟩ = .ok v ⟨s.frame, t⟩) (ht : t.Grounded) :
    ∃ u, s.run P op [dst] m = .ok [.value v] u ∧ t.Moves u ∧
      u.heap.variables = t.heap.variables := by
  obtain ⟨u, hu, hheap, hslot⟩ := putSlot_shown s.frame.view dst.toNat t (.value v)
  have hset : Body.setSlot dst.toNat v ⟨s.frame, t⟩ = .ok () ⟨s.frame, u⟩ :=
    Body.lift_of_ok (s := ⟨s.frame, t⟩) hu
  have hmoves := putValue_tracks s.frame.view dst.toNat v t ht
  rw [show putValue s.frame.view dst.toNat v t = .ok () u from hu] at hmoves
  refine ⟨u, ?_, hmoves, by rw [hheap]⟩
  refine (run_of_ok op [dst] (x := ⟨s.frame, u⟩) (n := .goto (s.pc + 1)) ?_).trans ?_
  · rw [hop]
    exact (bind_of_ok hx).trans (bind_of_ok hset)
  · simp only [List.map_cons, List.map_nil, hslot]

/-- Reading a variable. -/
theorem getUpval_explained (hm : m.Grounded) (s : Site) (dst : Reg) (idx : UInt16) :
    (getUpval s dst idx).Explained P m := by
  have hcell := capturedCell_eq hm s.function s.proto idx.toNat
  cases hx : m.heap.variables.find s.function idx.toNat with
  | none =>
    rw [hx] at hcell
    obtain ⟨e, he⟩ := hcell
    refine explained_of_none (by simp [explanation, asks, Variables.step, hx, Access.shown])
      ⟨.fault e, ?_⟩
    exact run_of_error (x := ⟨s.frame, m⟩) (bind_of_error (Body.lift_of_error (bind_of_error he)))
  | some x =>
    rw [hx] at hcell
    obtain ⟨t, ht, hmoves, hvariables⟩ := run_stores (P := P) (s := s) (.getUpval dst idx)
      dst (v := m.heap.variables.value x.2) rfl
      (Body.lift_of_ok ((bind_of_ok hcell).trans rfl)) hm
    exact explained_of_some (by simp [explanation, asks, Variables.step, hx, Access.shown]) ht
      hmoves hvariables

/-- Writing a variable. -/
theorem setUpval_explained (hm : m.Grounded) (s : Site) (idx : UInt16) (src : Reg) :
    (setUpval s idx src).Explained P m := by
  have hcell := capturedCell_eq hm s.function s.proto idx.toNat
  cases hx : m.heap.variables.find s.function idx.toNat with
  | none =>
    rw [hx] at hcell
    obtain ⟨e, he⟩ := hcell
    refine explained_of_none (by simp [explanation, asks, Variables.step, hx, Access.shown])
      ⟨.fault e, ?_⟩
    exact run_of_error (x := ⟨s.frame, m⟩) (bind_of_error (Body.lift_of_error he))
  | some x =>
    rw [hx] at hcell
    obtain ⟨t, ht, hmoves, hvariables⟩ := putCell_moves hm x.2 (s.register m src)
    have hrun : (setUpval s idx src).run P m = .ok [] t := by
      refine run_of_ok (.setUpval idx src) [] (x := ⟨s.frame, t⟩) (n := .goto (s.pc + 1))
        ((bind_of_ok (Body.lift_of_ok hcell)).trans ?_)
      exact (bind_of_ok rfl).trans (bind_of_ok (Body.lift_of_ok (s := ⟨s.frame, m⟩) ht))
    exact explained_of_some (by simp [explanation, asks, Variables.step, hx, Access.shown]) hrun
      hmoves hvariables

/-- Making a closure. -/
theorem closure_explained (hm : m.Grounded) (s : Site) (dst : Reg) (child : UInt16) :
    (closure s dst child).Explained P m := by
  cases hq : s.proto.children[child.toNat]? with
  | none =>
    have hmake : Interpreter.makeClosure s.function s.proto child.toNat ⟨s.frame, m⟩ =
        .error (.fault (.contract (.noChild s.proto.name child.toNat))) ⟨s.frame, m⟩ := by
      unfold Interpreter.makeClosure
      rw [hq]
      rfl
    exact explained_of_none (by simp [explanation, asks, hq])
      ⟨_, run_of_error (x := ⟨s.frame, m⟩) (bind_of_error hmake)⟩
  | some q =>
    have hmake := makeClosure_eq hm s.function hq s.frame
    cases hxs : m.heap.variables.resolve (m.sources s.function s.frame.view q.upvalues) with
    | none =>
      rw [hxs] at hmake
      obtain ⟨e, he⟩ := hmake
      exact explained_of_none (by simp [explanation, asks, hq, Variables.step, hxs, Access.shown])
        ⟨.fault e, run_of_error (x := ⟨s.frame, m⟩) (bind_of_error he)⟩
    | some xs =>
      rw [hxs] at hmake
      obtain ⟨t, ht, hmoves, hvariables⟩ := hmake
      obtain ⟨u, hu, hstored, hkept⟩ := run_stores (P := P) (s := s) (.closure dst child)
        dst rfl ht hmoves.grounded
      refine explained_of_some ?_ hu (hmoves.trans hstored) (hkept.trans hvariables)
      simp [explanation, asks, hq, Variables.step, hxs, Access.shown]
      rfl

/-- A slot gets a new cell, with the value that it had. -/
theorem newCell_shown (hm : m.Grounded) (view : View) (i : Nat) (v : Val) :
    ∃ t, ((do putSlot view i (.cell (← newCell v))) : M Empty PUnit Unit) m = .ok () t ∧
      m.Moves t ∧ t.heap.variables = m.heap.variables.introduced v ∧
      view.slot t.thread.stack i = .cell ⟨m.heap.cells.size⟩ := by
  obtain ⟨hmoves, hvariables⟩ := moves_newCell hm v
  obtain ⟨t, ht, hheap, hslot⟩ := putSlot_shown view i
    { m with heap := { m.heap with cells := m.heap.cells.push v } } (.cell ⟨m.heap.cells.size⟩)
  have htracked := putSlot_tracked hmoves.grounded view i (x := .cell ⟨m.heap.cells.size⟩)
    (by show m.heap.cells.size < (m.heap.cells.push v).size; simp)
  rw [ht] at htracked
  exact ⟨t, (bind_of_ok (show newCell v m = .ok ⟨m.heap.cells.size⟩ _ from rfl)).trans ht,
    hmoves.trans htracked, by rw [hheap, hvariables], hslot⟩

/-- A variable that comes to life. -/
theorem varInit_explained (hm : m.Grounded) (s : Site) (var src : Reg) :
    (varInit s var src).Explained P m := by
  obtain ⟨t, ht, hmoves, hvariables, hslot⟩ :=
    newCell_shown hm s.frame.view var.toNat (s.register m src)
  have hrun := run_of_ok (P := P) (m := m) (s := s) (.varInit var src) [var]
    (x := ⟨s.frame, t⟩) (n := .goto (s.pc + 1))
    ((bind_of_ok rfl).trans ((bind_of_ok rfl).trans (bind_of_ok (Body.lift_of_ok ht))))
  refine explained_of_some ?_ hrun hmoves hvariables
  simp only [List.map_cons, List.map_nil, hslot]
  rfl

/-- A parameter that comes to life. -/
theorem parameter_explained (hm : m.Grounded) (view : View) (i : Nat) :
    (parameter view i).Explained P m := by
  let v := view.get m.thread.stack m.heap.cells i
  obtain ⟨t, ht, hmoves, hvariables, hslot⟩ := newCell_shown hm view i v
  obtain ⟨c, u, hc, hput⟩ := ok_of_bind ht
  have hreify : reify view i m = .ok c t :=
    (bind_of_ok (show valueAt view i m = .ok v m from rfl)).trans
      ((bind_of_ok hc).trans (bind_of_ok hput))
  have hrun : (parameter view i).run P m = .ok [view.slot t.thread.stack i] t :=
    (bind_of_ok hreify).trans rfl
  refine explained_of_some ?_ hrun hmoves hvariables
  rw [hslot]
  rfl

/-- An assignment to a variable, or to a plain register. -/
theorem varStore_explained (hm : m.Grounded) (s : Site) (var src : Reg) :
    (varStore s var src).Explained P m := by
  have hstore : ∃ t, store s.frame.view var.toNat (s.register m src) m = .ok () t ∧ m.Moves t ∧
      t.heap.variables = (m.heap.variables.step (.assign
        (s.frame.view.slot m.thread.stack var.toNat).cell? (s.register m src))).2 := by
    cases hslot : s.frame.view.slot m.thread.stack var.toNat with
    | cell c =>
      rw [Interpreter.store_cell hslot]
      exact putCell_moves hm c _
    | value v =>
      rw [Interpreter.store_bare (by rw [hslot]; rfl)]
      have hmoves := putValue_tracks s.frame.view var.toNat (s.register m src) m hm
      obtain ⟨t, ht, hheap, -⟩ :=
        putSlot_shown s.frame.view var.toNat m (.value (s.register m src))
      refine ⟨t, ht, ?_, by rw [hheap]; rfl⟩
      rw [show putValue s.frame.view var.toNat (s.register m src) m = .ok () t from ht] at hmoves
      exact hmoves
  obtain ⟨t, ht, hmoves, hvariables⟩ := hstore
  have hrun := run_of_ok (m := m) (s := s) (.varStore var src) []
    (Interpreter.varStore_execute P ht)
  refine explained_of_some ?_ hrun hmoves hvariables
  cases hslot : (s.frame.view.slot m.thread.stack var.toNat).cell? <;>
    simp [explanation, asks, hslot, Variables.step, Access.shown]

/-- A body that is loaded. -/
theorem load_explained (hm : m.Grounded) (p : Proto) : (load p).Explained P m := by
  cases hp : p.check with
  | ok u =>
    obtain ⟨t, ht, hmoves, hstep⟩ := loadProto_eq hm hp
    refine explained_of_some ?_ (bind_of_ok ht) hmoves rfl
    simp [explanation, asks, hp, hstep, Access.shown]
  | error e =>
    obtain ⟨e', he⟩ := loadProto_refused (m := m) (p := p) (by rw [hp]; nofun)
    exact explained_of_none (by simp [explanation, asks, hp]) ⟨e', bind_of_error he⟩

/-! ## The debug library -/

variable {args : View}

theorem shown_of_results {b : Builtin} {values : List Val}
    (h : runBuiltin P b args m = giveAll values t) :
    b.shown P args m = .ok (values.map .value) (t.withResults values) := by
  refine (bind_of_ok (h.trans (giveAll_eq values t))).trans ?_
  exact bind_of_ok (show resultList (t.withResults values) = .ok values _ from rfl)

theorem shown_of_fault {b : Builtin} (h : ∃ e, runBuiltin P b args m = .error (.fault e) m) :
    ∃ e, b.shown P args m = .error e m := by
  obtain ⟨e, he⟩ := h
  exact ⟨.fault e, bind_of_error he⟩

/-- Results are no variables. -/
theorem moves_withResults (ht : m.Moves t) (values : List Val) :
    m.Moves (t.withResults values) ∧ (t.withResults values).heap.variables = t.heap.variables :=
  ⟨ht.trans (.same ht.grounded rfl rfl rfl rfl), rfl⟩

theorem getupvalue_explained (hm : m.Grounded) (args : View) :
    (getupvalue args).Explained P m := by
  obtain ⟨hnone, hrun⟩ | ⟨f, n, hsome, hrun⟩ := Debug.named (m := m) (n := 1) "getupvalue"
    (fun _ _ name cell => do giveAll [.str name, ← cellAt cell]) (giveAll [])
  · exact explained_of_none (by simp [explanation, asks, hnone]) (shown_of_fault hrun)
  · cases hx : m.heap.variables.find f (n.toInt - 1) with
    | none =>
      rw [hx] at hrun
      obtain ⟨hmoves, hvariables⟩ := moves_withResults (.refl hm) []
      refine explained_of_some ?_ (shown_of_results hrun) hmoves hvariables
      simp [explanation, asks, hsome, Variables.step, hx, Access.shown]
    | some x =>
      rw [hx] at hrun
      obtain ⟨hmoves, hvariables⟩ := moves_withResults (.refl hm)
        [.str x.1, m.heap.cell x.2]
      refine explained_of_some ?_ (shown_of_results hrun) hmoves hvariables
      simp [explanation, asks, hsome, Variables.step, hx, Access.shown]
      rfl

theorem setupvalue_explained (hm : m.Grounded) (args : View) :
    (setupvalue args).Explained P m := by
  obtain ⟨hnone, hrun⟩ | ⟨f, n, hsome, hrun⟩ := Debug.named (m := m) (n := 1) "setupvalue"
    (fun _ _ name cell => do
      putCell cell (← Args.arg args 3)
      give (.str name)) (giveAll [])
  · exact explained_of_none (by simp [explanation, asks, hnone]) (shown_of_fault hrun)
  · cases hx : m.heap.variables.find f (n.toInt - 1) with
    | none =>
      rw [hx] at hrun
      obtain ⟨hmoves, hvariables⟩ := moves_withResults (.refl hm) []
      refine explained_of_some ?_ (shown_of_results hrun) hmoves hvariables
      simp [explanation, asks, hsome, Variables.step, hx, Access.shown]
    | some x =>
      rw [hx] at hrun
      obtain ⟨t, ht, hput, hwritten⟩ := putCell_moves hm x.2 (args.argument m 3)
      obtain ⟨hmoves, hvariables⟩ := moves_withResults hput [.str x.1]
      refine explained_of_some ?_ (shown_of_results (hrun.trans ((bind_of_ok (Args.arg_eq 3)).trans
        (bind_of_ok ht)))) hmoves (hvariables.trans hwritten)
      simp [explanation, asks, hsome, Variables.step, hx, Access.shown]

theorem upvalueid_explained (hm : m.Grounded) (args : View) :
    (upvalueid args).Explained P m := by
  cases hnamed : args.subject? m 1 with
  | none =>
    obtain ⟨e, he⟩ := Debug.checkUpvalue_refused (m := m) (n := 1) args "upvalueid"
      fun f i h => by rw [hnamed] at h; cases h
    exact explained_of_none (by simp [explanation, asks, hnamed])
      (shown_of_fault ⟨e, bind_of_error he⟩)
  | some y =>
    obtain ⟨f, i⟩ := y
    cases hx : m.heap.variables.find f i with
    | none =>
      obtain ⟨e, he⟩ := Debug.checkUpvalue_refused (m := m) (n := 1) args "upvalueid"
        fun g j h => by rw [hnamed] at h; cases h; exact hx
      exact explained_of_none (by simp [explanation, asks, hnamed, Variables.step, hx, Access.shown])
        (shown_of_fault ⟨e, bind_of_error he⟩)
    | some x =>
      obtain ⟨hmoves, hvariables⟩ := moves_withResults (.refl hm) [Val.ofNat x.2.address]
      refine explained_of_some ?_ (shown_of_results
        (bind_of_ok (Debug.checkUpvalue_eq "upvalueid" hnamed hx))) hmoves hvariables
      simp [explanation, asks, hnamed, Variables.step, hx, Access.shown]

theorem upvaluejoin_explained (hm : m.Grounded) (args : View) :
    (upvaluejoin args).Explained P m := by
  by_cases h : ∃ f i x g j y,
      (args.subject? m 1 = some (f, i) ∧ m.heap.variables.find f i = some x) ∧
      args.subject? m 3 = some (g, j) ∧ m.heap.variables.find g j = some y
  · obtain ⟨f, i, x, g, j, y, ⟨hf, hx⟩, hg, hy⟩ := h
    obtain ⟨t, ht, hjoin, hbound⟩ := Debug.upvaluejoin_eq hm hf hx hg hy
    obtain ⟨hmoves, hvariables⟩ := moves_withResults hjoin []
    refine explained_of_some ?_ (shown_of_results ht) hmoves (hvariables.trans hbound)
    simp [explanation, asks, hf, hg, Variables.step, hx, hy, Access.shown]
  · refine explained_of_none ?_ (shown_of_fault (Debug.upvaluejoin_refused h))
    cases hf : args.subject? m 1 with
    | none => simp [explanation, asks, hf]
    | some z =>
      cases hg : args.subject? m 3 with
      | none => simp [explanation, asks, hf, hg]
      | some w =>
        cases hx : m.heap.variables.find z.1 z.2 with
        | none => simp [explanation, asks, hf, hg, Variables.step, hx, Access.shown]
        | some x =>
          cases hy : m.heap.variables.find w.1 w.2 with
          | none => simp [explanation, asks, hf, hg, Variables.step, hx, hy, Access.shown]
          | some y => exact (h ⟨z.1, z.2, x, w.1, w.2, y, ⟨hf, hx⟩, hg, hy⟩).elim

/-- **Accesses.** The machine does what the store says of an access, with any operands. -/
theorem run_explained (hm : m.Grounded) (a : Access) (P : Perform Empty PUnit) :
    a.Explained P m := by
  cases a with
  | getUpval s dst idx => exact getUpval_explained hm s dst idx
  | setUpval s idx src => exact setUpval_explained hm s idx src
  | closure s dst child => exact closure_explained hm s dst child
  | varInit s var src => exact varInit_explained hm s var src
  | varStore s var src => exact varStore_explained hm s var src
  | parameter view i => exact parameter_explained hm view i
  | load p => exact load_explained hm p
  | getupvalue args => exact getupvalue_explained hm args
  | setupvalue args => exact setupvalue_explained hm args
  | upvalueid args => exact upvalueid_explained hm args
  | upvaluejoin args => exact upvaluejoin_explained hm args

end Access

/-! ## What is refused -/

/-- The machine that a step has left, however it ended. -/
def Machine.left {α : Type} : EStateM.Result Unwind (Machine Empty PUnit) α → Machine Empty PUnit
  | .ok _ t | .error _ t => t

section Refused

variable {m : Machine Empty PUnit}

/-- **Valid indices.** A function has as many variables as its body captures. -/
theorem Machine.Grounded.find_isSome (hm : m.Grounded) (f : FnId) (i : Int) :
    (m.heap.variables.find f i).isSome ↔ 0 ≤ i ∧ i < (m.heap.function f).upvalueCount := by
  unfold Variables.find
  by_cases hi : i < 0
  · rw [if_pos hi]
    exact ⟨nofun, fun h => by omega⟩
  · rw [if_neg hi]
    show ((m.heap.function f).upvalue? i.toNat).isSome ↔ _
    have hc := hm.functions f
    generalize m.heap.function f = c at hc
    cases c with
    | closure p cells =>
      dsimp only [Callable.upvalue?, Callable.upvalueCount]
      by_cases hlt : i.toNat < cells.size
      · have hu : i.toNat < p.upvalues.length := hc.1 ▸ hlt
        simp only [List.getElem?_eq_getElem hu, Array.getElem?_eq_getElem hlt]
        exact ⟨fun _ => ⟨by omega, by omega⟩, fun _ => rfl⟩
      · have hu : p.upvalues.length ≤ i.toNat := hc.1 ▸ Nat.le_of_not_lt hlt
        rw [List.getElem?_eq_none hu]
        exact ⟨nofun, fun h => by omega⟩
    | host h => exact h.elim
    | builtin | protectedCall | wrapped | routine =>
      exact ⟨nofun, fun h => by dsimp only [Callable.upvalueCount] at h; omega⟩

/-- **Failing accesses.** An access that fails leaves the machine as it was, and one that is refused
leaves the variables. -/
theorem Access.refused (hm : m.Grounded) (a : Access) (P : Perform Empty PUnit) :
    (∀ e t, a.run P m = .error e t → t = m) ∧
      ((∀ op, a.asks m = some op → (m.heap.variables.step op).1 = .refused) →
        (left (a.run P m)).heap.variables = m.heap.variables) := by
  have hrun := a.run_explained hm P
  unfold Access.Explained at hrun
  cases h : a.explanation m m.heap.variables with
  | none =>
    rw [h] at hrun
    obtain ⟨e, he⟩ := hrun
    rw [he]
    exact ⟨fun _ _ hend => by cases hend; rfl, fun _ => rfl⟩
  | some x =>
    obtain ⟨seen, W⟩ := x
    rw [h] at hrun
    obtain ⟨t, ht, -, hvariables⟩ := hrun
    rw [ht]
    refine ⟨fun _ _ hend => (by cases hend), fun hrefused => hvariables.trans ?_⟩
    unfold Access.explanation at h
    cases hasks : a.asks m with
    | none => rw [hasks] at h; cases h
    | some op =>
      have hsame := Variables.refused_same (hrefused op hasks)
      rw [hasks] at h
      dsimp only [Option.bind_eq_bind, Option.bind_some] at h
      cases hshown : a.shown (m.heap.variables.step op).1 with
      | none => rw [hshown] at h; cases h
      | some seen' =>
        rw [hshown] at h
        cases h
        exact hsame

/-- Integer values are told apart. -/
theorem Val.ofNat_inj {a b : Nat} (ha : a < 2 ^ 63) (hb : b < 2 ^ 63) (h : ofNat a = ofNat b) :
    a = b := by
  have h := congrArg Int64.toInt (Val.int.inj h)
  rw [Int64.toInt_ofNat_of_lt ha, Int64.toInt_ofNat_of_lt hb] at h
  exact Int.ofNat_inj.1 h

theorem CellId.address_lt {c : CellId} (hc : c.index < 2 ^ 56) : c.address < 2 ^ 63 := by
  unfold CellId.address ScriptCore.address
  omega

/-- **Identities.** Variables have one identity exactly if they have one cell. -/
theorem CellId.identity_inj {c d : CellId} (hc : c.index < 2 ^ 56) (hd : d.index < 2 ^ 56) :
    Val.ofNat c.address = Val.ofNat d.address ↔ c = d := by
  refine ⟨fun h => congrArg CellId.mk ?_, fun h => h ▸ rfl⟩
  have h := Val.ofNat_inj (address_lt hc) (address_lt hd) h
  unfold CellId.address ScriptCore.address at h
  omega

end Refused

/-! ## Histories -/

/-- What is done to a machine. -/
inductive Happening
  | access (a : Access)
  /-- A value is called, with all that comes of it. -/
  | call (window : View) (target : Val)
  /-- Values are put in a window. -/
  | stage (window : View) (values : List Val)

/-- A history that the store explains, from variables `V` on: every access shows what the store
answers, or fails and changes nothing, and what calls do to the variables are operations of the
store. -/
def Retold (fuel : Nat) : List Happening → Machine Empty PUnit → Variables → Prop
  | [], m, V => m.heap.variables = V ∧ m.Grounded
  | .access a :: events, m, V =>
    match a.explanation m V with
    | some (seen, W) => ∃ t, a.run (perform fuel) m = .ok seen t ∧ Retold fuel events t W
    | none => ∃ e, a.run (perform fuel) m = .error e m ∧ Retold fuel events m V
  | .call window target :: events, m, V =>
    ∃ ops, Retold fuel events (left (perform fuel (.call window target) m)) (V.after ops)
  | .stage window values :: events, m, V =>
    ∃ w t, load window values m = .ok w t ∧ Retold fuel events t V

/-- A step that keeps track leaves a grounded machine. -/
theorem Tracked.moves {α : Type} {m : Machine Empty PUnit}
    {r : EStateM.Result Unwind (Machine Empty PUnit) α} (h : Tracked id m r) : m.Moves (left r) := by
  cases r with
  | ok a t => exact h
  | error e t => exact h.1

/-- **Histories.** Every history of a grounded machine is explained by the store. -/
theorem retold (fuel : Nat) (events : List Happening) {m : Machine Empty PUnit} (hm : m.Grounded) :
    Retold fuel events m m.heap.variables := by
  induction events generalizing m with
  | nil => exact ⟨rfl, hm⟩
  | cons event events ih =>
    cases event with
    | access a =>
      have hrun := a.run_explained hm (perform fuel)
      unfold Access.Explained at hrun
      unfold Retold
      cases h : a.explanation m m.heap.variables with
      | none =>
        rw [h] at hrun
        obtain ⟨e, he⟩ := hrun
        exact ⟨e, he, ih hm⟩
      | some x =>
        rw [h] at hrun
        obtain ⟨t, ht, hmoves, hvariables⟩ := hrun
        exact ⟨t, ht, hvariables ▸ ih hmoves.grounded⟩
    | call window target =>
      have hmoves := (perform_grounding fuel (.call window target) m hm trivial).moves
      obtain ⟨ops, hops⟩ := hmoves.ops
      exact ⟨ops, hops ▸ ih hmoves.grounded⟩
    | stage window values =>
      obtain ⟨x, hx⟩ := onStack_ok (window.load · values) m
      have hmoves := load_tracks window values m hm
      rw [show load window values m = _ from hx] at hmoves
      exact ⟨_, _, hx, ih hmoves.grounded⟩

/-- A machine that has not run and has no captured variables yet. -/
theorem grounded_start {heap : Heap Empty} (hfunctions : ∀ f, (heap.function f).Within 0)
    (hcoroutines : heap.coroutines = #[]) (config : Config) (trace : Option (Array TraceEvent)) :
    (Machine.start heap config trace ⟨⟩).Grounded where
  functions f := (hfunctions f).mono (Nat.zero_le _)
  stack i := by
    show Slot.Within _ ((Array.replicate config.initialStackSlots Slot.nil).getD i Slot.nil)
    rw [Array.getD_eq_getD_getElem?, Array.getElem?_replicate]
    split <;> trivial
  chains co chain hco := by
    have hnone : (Machine.start heap config trace (⟨⟩ : PUnit)).heap.coroutine co =
        heap.coroutine co := rfl
    rw [hnone, Heap.coroutine, hcoroutines] at hco
    cases hco

/-! ## All of it -/

end ScriptCore
