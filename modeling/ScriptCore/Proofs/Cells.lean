import ScriptCore.Proofs.Parameters
import ScriptCore.Proofs.Validation

/-!
# Cells of an activation

An activation gives cells to those of its registers that closures capture: to parameters when it
starts, and to variables when it comes to them. A `Ledger` notes what it put in each register last,
and loses sight of the registers that a call covers. `Lives` are the ledgers of an activation from
its start on, through any number of calls and suspensions.

What the ledger notes of a register is there (`Lives.sound`). So a closure over a nested body
captures the cells that the ledger has, and fails at a register that was written over; an
assignment goes to the cell that the ledger has, or to the register (`Lives.governs`). Every place
to which a closure comes has a ledger (`Visits.lives`), and `cells_governed` puts both together. A
register that a call has covered can hold a cell of the function that was called, and the machine
takes it for one of the caller (`captures_left_cell`).
-/

namespace ScriptCore

open Machine

variable {F S : Type}

/-! ## Ledgers -/

instance (c : Count) (base top r : Nat) : Decidable (c.Covers base top r) :=
  match c with
  | .fixed _ => inferInstanceAs (Decidable (_ ∧ _))
  | .open => inferInstanceAs (Decidable (_ ∧ _))

instance (op : Op) (top r : Nat) : Decidable (op.Writes top r) :=
  match op with
  | .nil _ | .bool .. | .const .. | .move .. | .varInit .. | .varStore .. | .getUpval ..
  | .closure .. | .newTable _ | .getGlobal .. | .index .. | .binary .. | .unary .. =>
    inferInstanceAs (Decidable (_ = _))
  | .call .. | .vararg .. => inferInstanceAs (Decidable (Count.Covers ..))
  | .setUpval .. | .append .. | .setGlobal .. | .newIndex .. | .jump _ | .test .. | .tailCall ..
  | .ret .. => inferInstanceAs (Decidable False)

/-- What an activation knows of a register. -/
inductive Mark
  /-- It wrote a value there. -/
  | value
  /-- It made the cell for the register, and did not write over it. -/
  | own (c : CellId)
  /-- Whatever others have put there. -/
  | shared
deriving DecidableEq

/-- What a slot with a mark can hold. -/
def Mark.Allows : Mark → Slot → Prop
  | .value, x => x.cell? = none
  | .own c, x => x = .cell c
  | .shared, _ => True

/-- What an activation knows of its registers. -/
abbrev Ledger := Nat → Mark

namespace Ledger

/-- A fresh frame: captured parameters have got cells, the other ones are what the caller hands
over, and the rest is clear. -/
def ofEntry (p : Proto) (cells : Nat) : Ledger := fun r =>
  if p.params ≤ r then .value
  else if p.isReified r then .own ⟨cells + (List.range r).countP p.isReified⟩
  else .shared

/-- A call covers the registers from `k` on. -/
def exposed (L : Ledger) (k : Nat) : Ledger := fun r => if r < k then L r else .shared

/-- An operation stores its outcome and leaves `top` live slots. Only a variable that is
introduced gets a cell, the next one of `cells`; an assignment to a variable does not change
where it is. -/
def stored (L : Ledger) (op : Op) (top cells : Nat) : Ledger := fun r =>
  match op with
  | .varInit var _ => if r = var.toNat then .own ⟨cells⟩ else L r
  | .varStore .. => L r
  | op => if op.Writes top r then .value else L r

end Ledger

theorem View.slot_put {v : View} {s : Stack} {i : Nat} {x : Slot} (r : Nat) :
    (v.put s i x).slot (v.base + r) = if r = i then x else v.slot s r := by
  rw [View.put, Stack.slot_put]
  simp only [Nat.add_left_cancel_iff]
  rfl

theorem Machine.putSlot_register {v : View} {i : Nat} {x : Slot} {m u : Machine F S}
    (h : putSlot v i x m = .ok () u) : u.heap = m.heap ∧
      ∀ r, v.slot u.thread.stack r = if r = i then x else v.slot m.thread.stack r := by
  cases h
  exact ⟨rfl, View.slot_put⟩

/-- The slot of a register. -/
def Active.register (s : Active F S) (r : Nat) : Slot := s.frame.view.slot s.machine.thread.stack r

/-- The ledger notes what is in the first `n` registers. -/
def Ledger.Fits (L : Ledger) (n : Nat) (register : Nat → Slot) : Prop :=
  ∀ r < n, (L r).Allows (register r)

theorem Ledger.Fits.exposed {L : Ledger} {n k : Nat} {x y : Nat → Slot} (h : L.Fits n x)
    (hkept : ∀ r < n, r < k → y r = x r) : (L.exposed k).Fits n y := by
  intro r hr
  unfold Ledger.exposed
  split
  · rw [hkept r hr ‹_›]
    exact h r hr
  · trivial

/-! ## Storing values -/

/-- `t` is `s` with values in the registers `W`. -/
structure Stored (W : Nat → Prop) (s t : Active F S) : Prop where
  base : t.frame.view.base = s.frame.view.base
  slots : t.frame.slots = s.frame.slots
  kept : ∀ r, ¬ W r → t.register r = s.register r
  values : ∀ r, W r → (t.register r).cell? = none

namespace Stored

variable {W V : Nat → Prop} {s t u : Active F S}

/-- Nothing is stored where frame and stack are as before. -/
theorem nothing (hbase : t.frame.view.base = s.frame.view.base) (hslots : t.frame.slots = s.frame.slots)
    (hstack : ∀ i, t.machine.thread.stack.slot i = s.machine.thread.stack.slot i) :
    Stored (fun _ => False) s t where
  base := hbase
  slots := hslots
  kept r _ := by rw [Active.register, View.slot_eq, hstack, hbase]; rfl
  values _ h := h.elim

theorem trans (h : Stored W s t) (k : Stored V t u) : Stored (fun r => W r ∨ V r) s u where
  base := k.base.trans h.base
  slots := k.slots.trans h.slots
  kept r hr := (k.kept r fun hv => hr (.inr hv)).trans (h.kept r fun hw => hr (.inl hw))
  values r hr := by
    by_cases hv : V r
    · exact k.values r hv
    · rw [k.kept r hv]
      exact h.values r (hr.resolve_right hv)

theorem congr (h : Stored W s t) (hV : ∀ r, V r ↔ W r) : Stored V s t := by
  obtain rfl : V = W := funext fun r => propext (hV r)
  exact h

/-- Storing values keeps a ledger in step. -/
theorem fits {op : Op} {top cells n : Nat} {L : Ledger} (h : Stored (op.Writes top) s t)
    (hinit : ∀ var src, op ≠ .varInit var src) (hstore : ∀ var src, op ≠ .varStore var src)
    (hL : L.Fits n s.register) : (L.stored op top cells).Fits n t.register := by
  intro r hr
  have heq : L.stored op top cells r = if op.Writes top r then .value else L r := by
    cases op with
    | varInit var src => exact (hinit var src rfl).elim
    | varStore var src => exact (hstore var src rfl).elim
    | _ => rfl
  rw [heq]
  split
  · exact h.values r ‹_›
  · rw [h.kept r ‹_›]
    exact hL r hr

end Stored

namespace Body

variable {s t : Active F S}

theorem lift_stored {α : Type} {x : M F S α} {a : α} (h : lift x s = .ok a t)
    (hstack : ∀ m, x s.machine = .ok a m → m.thread.stack = s.machine.thread.stack) :
    Stored (fun _ => False) s t := by
  obtain ⟨hx, hframe⟩ := lift_ok h
  refine .nothing (by rw [hframe]) (by rw [hframe]) fun i => ?_
  rw [hstack _ hx]

theorem setSlot_stored {i : Nat} {v : Val} (h : setSlot i v s = .ok () t) : Stored (· = i) s t := by
  obtain ⟨frame, u, hframe, h⟩ := ok_of_bind h
  cases hframe
  obtain ⟨hput, hframe⟩ := lift_ok h
  have hregister := (putSlot_register hput).2
  refine ⟨by rw [hframe], by rw [hframe], fun r hr => ?_, fun r hr => ?_⟩
  · rw [Active.register, hframe]
    exact (hregister r).trans (if_neg hr)
  · rw [Active.register, hframe]
    exact congrArg Slot.cell? ((hregister r).trans (if_pos hr))

theorem setSlots_stored {i : Nat} {vs : List Val} (h : setSlots i vs s = .ok () t) :
    Stored (fun r => i ≤ r ∧ r < i + vs.length) s t := by
  induction vs generalizing i s with
  | nil =>
    cases h
    exact (Stored.nothing rfl rfl fun _ => rfl).congr fun r => by simp
  | cons v vs ih =>
    obtain ⟨_, u, hu, h⟩ := ok_of_bind h
    refine ((setSlot_stored hu).trans (ih h)).congr fun r => ?_
    rw [List.length_cons]
    omega

theorem setTop_stored {n : Nat} (h : setTop n s = .ok () t) :
    Stored (fun _ => False) s t ∧ t.frame.view.top = n := by
  cases h
  exact ⟨.nothing rfl rfl fun i => View.slot_growTo .., rfl⟩

end Body

namespace Interpreter

variable {f : FnId} {p q : Proto} {pc next : Nat} {op : Op} {s t : Active F S}

/-! ## Closures -/

theorem capturedCell_same {idx : Nat} {c : CellId} {m u : Machine F S}
    (h : capturedCell f p idx m = .ok c u) : u = m := by
  unfold capturedCell at h
  obtain ⟨g, v, hg, h⟩ := ok_of_bind h
  cases hg
  cases hf : m.heap.function f with
  | closure p' cells =>
    rw [hf] at h
    cases hcell : cells[idx]? with
    | none =>
      simp only [hcell] at h
      cases h
    | some c' =>
      simp only [hcell] at h
      cases h
      rfl
  | _ =>
    rw [hf] at h
    cases h

/-- What is captured: the cells of registers, as they are there. -/
theorem captureCells_ok {view : View} {ds : List UpvalueDesc} {cells cells' : Array CellId}
    {m u : Machine F S} (h : captureCells f p q view ds cells m = .ok cells' u) :
    u = m ∧ cells'.size = cells.size + ds.length ∧
      (∀ i < cells.size, cells'[i]? = cells[i]?) ∧
      ∀ i d r, ds[i]? = some d → d.capture = .slot r →
        ∃ c, cells'[cells.size + i]? = some c ∧
          view.slot m.thread.stack r.toNat = .cell c := by
  induction ds generalizing cells with
  | nil =>
    cases h
    exact ⟨rfl, rfl, fun _ _ => rfl, fun i d r hd => by cases hd⟩
  | cons d ds ih =>
    have hstep : ∃ c, captureCells f p q view ds (cells.push c) m = .ok cells' u ∧
        ∀ r, d.capture = .slot r → view.slot m.thread.stack r.toNat = .cell c := by
      unfold captureCells at h
      cases hd : d.capture with
      | slot r =>
        rw [hd] at h
        obtain ⟨slot, v, hslot, h⟩ := ok_of_bind h
        cases hslot
        cases hcell : view.slot m.thread.stack r.toNat with
        | cell c =>
          rw [hcell] at h
          refine ⟨c, h, fun r' hr' => ?_⟩
          cases hr'
          exact hcell
        | value x =>
          rw [hcell] at h
          cases h
      | upvalue idx =>
        rw [hd] at h
        obtain ⟨c, v, hc, hrest⟩ := ok_of_bind h
        cases capturedCell_same hc
        exact ⟨c, hrest, fun r hr => by cases hr⟩
    obtain ⟨c, hrest, hcell⟩ := hstep
    obtain ⟨rfl, hsize, hbelow, habove⟩ := ih hrest
    rw [Array.size_push] at hsize hbelow habove
    refine ⟨rfl, by rw [hsize, List.length_cons]; omega, fun i hi => ?_, fun i e r he hr => ?_⟩
    · rw [hbelow i (by omega), Array.getElem?_push_lt hi, Array.getElem?_eq_getElem hi]
    · cases i with
      | zero =>
        cases he
        refine ⟨c, ?_, hcell r hr⟩
        rw [Nat.add_zero, hbelow _ (by omega), Array.getElem?_push_size]
      | succ i =>
        obtain ⟨c', hc', hslot⟩ := habove i e r he hr
        exact ⟨c', by rw [← hc']; congr 1; omega, hslot⟩

/-- A closure over a nested body is a new function with the cells that it captures. -/
theorem makeClosure_ok {idx : Nat} {v : Val} (h : makeClosure f p idx s = .ok v t) :
    ∃ q cells, p.children[idx]? = some q ∧ v = .fn ⟨s.machine.heap.functions.size⟩ ∧
      t = ⟨s.frame, s.machine.pushed (.closure q cells)⟩ ∧
      ∀ (i : Nat) d r, q.upvalues[i]? = some d → d.capture = .slot r →
        ∃ c, cells[i]? = some c ∧ s.register r.toNat = .cell c := by
  unfold makeClosure at h
  cases hq : p.children[idx]? with
  | none =>
    rw [hq] at h
    cases h
  | some q =>
    rw [hq] at h
    obtain ⟨frame, u, hframe, h⟩ := ok_of_bind h
    cases hframe
    obtain ⟨h, ht⟩ := Body.lift_ok h
    obtain ⟨cells, m, hcells, h⟩ := ok_of_bind h
    obtain ⟨rfl, hsize, -, habove⟩ := captureCells_ok hcells
    replace hsize : cells.size = q.upvalues.length := hsize.trans (Nat.zero_add _)
    have hnew : (newClosure q cells : M F S FnId) s.machine =
        .ok ⟨s.machine.heap.functions.size⟩ (s.machine.pushed (.closure q cells)) := by
      unfold newClosure
      rw [← hsize, Array.extract_size, Nat.sub_self]
      rfl
    have hmade := (bind_of_ok (f := fun g => (pure (.fn g) : M F S Val)) hnew).symm.trans h
    obtain ⟨hv, hm⟩ := EStateM.Result.ok.inj hmade
    refine ⟨q, cells, rfl, hv.symm, ?_, fun i d r hd hr => ?_⟩
    · obtain ⟨frame, machine⟩ := t
      obtain rfl := ht
      exact congrArg (Active.mk _) hm.symm
    · obtain ⟨c, hc, hslot⟩ := habove i d r hd hr
      exact ⟨c, by rw [← hc]; congr 1; simp, hslot⟩

/-- A register without a cell cannot be captured. -/
theorem captureCells_refuses {view : View} {m : Machine F S}
    (hf : (m.heap.function f).ClosureOf p) {ds : List UpvalueDesc}
    (hds : ∀ d ∈ ds, p.Provides d.capture) {r : Reg} (hr : ∃ d ∈ ds, d.capture = .slot r)
    (hbare : (view.slot m.thread.stack r.toNat).cell? = none) (cells : Array CellId) :
    ∃ d ∈ ds, ∃ slot, d.capture = .slot slot ∧ captureCells f p q view ds cells m =
      .error (.fault (.contract (.neverReified q.name slot.toNat p.name))) m := by
  induction ds generalizing cells with
  | nil =>
    obtain ⟨d, hd, -⟩ := hr
    cases hd
  | cons d ds ih =>
    have hrest : d.capture ≠ .slot r → ∀ c, ∃ e ∈ d :: ds, ∃ slot, e.capture = .slot slot ∧
        captureCells f p q view ds (cells.push c) m =
          .error (.fault (.contract (.neverReified q.name slot.toNat p.name))) m := by
      intro hne c
      obtain ⟨e, he, hslot⟩ := hr
      have hmem : e ∈ ds := (List.mem_cons.1 he).resolve_left fun h => hne (h ▸ hslot)
      obtain ⟨e, he, slot, hslot, h⟩ :=
        ih (fun e he => hds e (List.mem_cons_of_mem _ he)) ⟨e, hmem, hslot⟩ (cells.push c)
      exact ⟨e, List.mem_cons_of_mem _ he, slot, hslot, h⟩
    unfold captureCells
    cases hd : d.capture with
    | slot slot =>
      have hslot : (slotAt view slot.toNat : M F S Slot) m =
        .ok (view.slot m.thread.stack slot.toNat) m := rfl
      cases hcell : view.slot m.thread.stack slot.toNat with
      | cell c =>
        rw [hcell] at hslot
        have hne : d.capture ≠ .slot r := by
          rw [hd]
          rintro ⟨⟩
          rw [hcell] at hbare
          cases hbare
        obtain ⟨e, he, s, hs, h⟩ := hrest hne c
        exact ⟨e, he, s, hs, (bind_of_ok hslot).trans h⟩
      | value x =>
        rw [hcell] at hslot
        exact ⟨d, List.mem_cons_self, slot, hd, bind_of_ok hslot⟩
    | upvalue idx =>
      have hprovides := hds d List.mem_cons_self
      rw [hd] at hprovides
      obtain ⟨c, hc⟩ := capturedCell_ok (S := S) hf hprovides
      obtain ⟨e, he, s, hs, h⟩ := hrest (by rw [hd]; exact fun h => by cases h) c
      exact ⟨e, he, s, hs, (bind_of_ok hc).trans h⟩

/-! ## Operations -/

theorem goto_of_settled (h : settled f p pc op s = .ok (.goto next) t) :
    execute (fun _ => throw .exhausted) f p pc op s = .ok (.goto next) t := by
  obtain ⟨turn, u, hu, h⟩ := ok_of_bind h
  cases turn <;> cases h
  exact hu

/-- A look-up or an operator that calls nothing stores its value. -/
theorem ask_stored [HostFunction F] {W : Nat → Prop} {x : M F S Intent}
    {store : Val → Body F S Unit} (hx : ∀ m, InStep (Abreast m) Eq x x)
    (hstore : ∀ v (u w : Active F S), store v u = .ok () w → Stored W u w)
    (h : (do
      Body.setIndex (pc + 1)
      let scratch ← Body.scratch
      let intent ← Body.lift x
      follow pc scratch store intent) s = .ok (.goto next) t) : Stored W s t := by
  obtain ⟨u, s₁, h₁, h⟩ := ok_of_bind h
  cases h₁
  obtain ⟨scratch, s₂, h₂, h⟩ := ok_of_bind h
  have hscratch : Stored (fun _ => False) s s₂ := by
    cases h₂
    exact .nothing rfl rfl fun i => View.slot_growTo ..
  obtain ⟨intent, s₃, h₃, h⟩ := ok_of_bind h
  have hplan := Body.lift_stored h₃ fun m hm => ((still_of_inStep (hx _)).1 _ _ hm).stack
  cases intent with
  | value v =>
    obtain ⟨u, s₄, h₄, h⟩ := ok_of_bind h
    cases h
    exact ((hscratch.trans hplan).trans (hstore v _ _ h₄)).congr fun r => by simp
  | ask handler args =>
    obtain ⟨w, s₄, -, h⟩ := ok_of_bind h
    cases h

/-- What is computed before the outcome is stored changes neither the frame nor the stack. -/
theorem stored_of_setSlot {dst : Reg} {v : Val} {u : Active F S} (hu : Stored (fun _ => False) s u)
    (h : (do Body.setSlot dst.toNat v; return Next.goto (pc + 1) : Body F S Next) u =
      .ok (.goto next) t) : Stored (· = dst.toNat) s t := by
  obtain ⟨_, w, hw, h⟩ := ok_of_bind h
  cases h
  exact (hu.trans (Body.setSlot_stored hw)).congr fun r => by simp

/-- An operation that calls nothing stores values in the registers that it writes. -/
theorem settled_stored (hinit : ∀ var src, op ≠ .varInit var src)
    (hstore : ∀ var src, op ≠ .varStore var src) (hop : op.maySuspend = false)
    (h : settled f p pc op s = .ok (.goto next) t) : Stored (op.Writes t.frame.view.top) s t := by
  have hsame : Stored (fun _ => False) s s := .nothing rfl rfl fun _ => rfl
  replace h := goto_of_settled h
  cases op with
  | varInit var src => exact (hinit var src rfl).elim
  | varStore var src => exact (hstore var src rfl).elim
  | nil dst => exact stored_of_setSlot hsame h
  | bool dst value => exact stored_of_setSlot hsame h
  | const dst idx => exact stored_of_setSlot hsame h
  | move dst src =>
    obtain ⟨value, h⟩ := Body.getSlot_ok h
    exact stored_of_setSlot hsame h
  | getUpval dst idx =>
    obtain ⟨value, u, hu, h⟩ := ok_of_bind h
    refine stored_of_setSlot (Body.lift_stored hu fun m hm => ?_) h
    obtain ⟨c, m', hc, hm⟩ := ok_of_bind hm
    cases capturedCell_same hc
    cases hm
    rfl
  | setUpval idx src =>
    obtain ⟨c, u, hc, h⟩ := ok_of_bind h
    have hcell := Body.lift_stored hc fun m hm => by rw [capturedCell_same hm]
    obtain ⟨value, h⟩ := Body.getSlot_ok h
    obtain ⟨_, w, hw, h⟩ := ok_of_bind h
    cases h
    refine (hcell.trans (Body.lift_stored hw fun m hm => ?_)).congr fun r => by simp [Op.Writes]
    cases (bind_of_ok (note_ok _ _)).symm.trans hm
    rfl
  | closure dst child =>
    obtain ⟨v, u, hu, h⟩ := ok_of_bind h
    obtain ⟨q, cells, -, -, rfl, -⟩ := makeClosure_ok hu
    exact stored_of_setSlot (u := ⟨s.frame, s.machine.pushed (.closure q cells)⟩)
      (.nothing rfl rfl fun _ => rfl) h
  | newTable dst =>
    obtain ⟨v, u, hu, h⟩ := ok_of_bind h
    refine stored_of_setSlot (Body.lift_stored hu fun m hm => ?_) h
    cases hm
    rfl
  | append table base count first =>
    obtain ⟨target, h⟩ := Body.getSlot_ok h
    obtain ⟨_, u, hu, h⟩ := ok_of_bind h
    cases h
    cases target with
    | table target =>
      obtain ⟨values, w, hw, hu⟩ := ok_of_bind hu
      obtain ⟨last, hw⟩ := span_ok hw
      cases hw
      refine Body.lift_stored hu fun m hm => ?_
      cases (bind_of_ok (note_ok _ _)).symm.trans hm
      rfl
    | _ => cases hu
  | jump dest =>
    cases h
    exact hsame
  | test cond when dest =>
    obtain ⟨value, h⟩ := Body.getSlot_ok h
    dsimp only at h
    split at h <;> cases h <;> exact hsame
  | tailCall func args =>
    obtain ⟨callee, h⟩ := Body.getSlot_ok h
    obtain ⟨values, u, -, h⟩ := ok_of_bind (next_ok h)
    obtain ⟨_, w, -, h⟩ := ok_of_bind h
    cases h
  | ret base count =>
    obtain ⟨values, u, -, h⟩ := ok_of_bind h
    obtain ⟨_, w, -, h⟩ := ok_of_bind h
    cases h
  | vararg dst count =>
    obtain ⟨frame, u, hu, h⟩ := ok_of_bind h
    cases hu
    cases count with
    | fixed n =>
      obtain ⟨_, u, hu, h⟩ := ok_of_bind h
      cases h
      have hregs := Body.setSlots_stored hu
      rw [length_padded] at hregs
      exact hregs
    | «open» =>
      obtain ⟨_, u, hu, h⟩ := ok_of_bind h
      obtain ⟨_, w, hw, h⟩ := ok_of_bind h
      cases h
      obtain ⟨htop, htop'⟩ := Body.setTop_stored hw
      refine ((Body.setSlots_stored hu).trans htop).congr fun r => ?_
      rw [htop', or_false]
      exact Iff.rfl
  | unary op dst src =>
    cases op with
    | not => exact stored_of_setSlot hsame (Body.getSlot_ok h).choose_spec
    | neg | bnot | len => cases hop
  | getGlobal | setGlobal | index | newIndex | binary | call => cases hop

/-- So does one that may call something but does not. -/
theorem prepare_stored [HostFunction F] (hinit : ∀ var src, op ≠ .varInit var src)
    (hstore : ∀ var src, op ≠ .varStore var src)
    (h : prepare f p pc op s = .ok (.goto next) t) :
    Stored (op.Writes t.frame.view.top) s t := by
  have hset : ∀ (dst : Reg) v (u w : Active F S),
      Body.setSlot dst.toNat v u = .ok () w → Stored (· = dst.toNat) u w :=
    fun dst v u w h => Body.setSlot_stored h
  have hnothing : ∀ (v : Val) (u w : Active F S),
      (pure () : Body F S Unit) u = .ok () w → Stored (fun _ => False) u w :=
    fun v u w h => by cases h; exact .nothing rfl rfl fun _ => rfl
  cases op with
  | getGlobal dst name =>
    exact ask_stored (fun m => (globals_inStep (Abreast.closed m)).seq fun _ =>
      planIndex_inStep (Abreast.closed m) _ _) (hset dst) h
  | setGlobal name src =>
    obtain ⟨value, h⟩ := Body.getSlot_ok h
    exact ask_stored (fun m => (globals_inStep (Abreast.closed m)).seq fun _ =>
      planNewIndex_inStep (Abreast.closed m) _ _ _) hnothing h
  | index dst object key =>
    obtain ⟨object, h⟩ := Body.getSlot_ok h
    obtain ⟨key, h⟩ := Body.getSlot_ok h
    exact ask_stored (fun m => planIndex_inStep (Abreast.closed m) _ _) (hset dst) h
  | newIndex object key value =>
    obtain ⟨object, h⟩ := Body.getSlot_ok h
    obtain ⟨key, h⟩ := Body.getSlot_ok h
    obtain ⟨value, h⟩ := Body.getSlot_ok h
    exact ask_stored (fun m => planNewIndex_inStep (Abreast.closed m) _ _ _) hnothing h
  | binary op dst lhs rhs =>
    obtain ⟨lhs, h⟩ := Body.getSlot_ok h
    obtain ⟨rhs, h⟩ := Body.getSlot_ok h
    exact ask_stored (fun m => planArith_inStep (Abreast.closed m) _ _ _) (hset dst) h
  | unary op dst src =>
    cases op with
    | not => exact settled_stored hinit hstore rfl h
    | neg | bnot | len =>
      obtain ⟨operand, h⟩ := Body.getSlot_ok h
      exact ask_stored (fun m => planUnary_inStep (Abreast.closed m) _ _) (hset dst) h
  | call func args results =>
    obtain ⟨callee, h⟩ := Body.getSlot_ok h
    obtain ⟨last, h⟩ := span_ok (next_ok h)
    cases h
  | nil | bool | const | move | varInit | varStore | getUpval | setUpval | closure | newTable
  | append | jump | test | tailCall | ret | vararg => exact settled_stored hinit hstore rfl h

theorem orViolate_same {α : Type} {e : Except Violation α} {a : α} {m u : Machine F S}
    (h : orViolate e m = .ok a u) : u = m := by
  cases e <;> cases h
  rfl

/-- What an operation has asked for is stored in the registers that it writes. -/
theorem complete_stored (hop : p.code[pc]? = some op) (h : complete p pc s = .ok () t) :
    Stored (op.Writes t.frame.view.top) s t := by
  have hresult : ∀ (post : Val → Val) (dst : Reg), complete p pc =
      (do Body.setSlot dst.toNat (post (← Body.lift (result 0))) : Body F S Unit) →
      Stored (· = dst.toNat) s t := by
    intro post dst hc
    rw [hc] at h
    obtain ⟨v, u, hu, h⟩ := ok_of_bind h
    have hread := Body.lift_stored hu fun m hm => by rw [orViolate_same hm]
    exact (hread.trans (Body.setSlot_stored h)).congr fun r => by simp
  have hnothing : complete p pc = (pure () : Body F S Unit) → Stored (fun _ => False) s t := by
    intro hc
    rw [hc] at h
    cases h
    exact .nothing rfl rfl fun _ => rfl
  cases op with
  | getGlobal dst name => exact hresult id dst (by simp [complete, hop])
  | index dst object key => exact hresult id dst (by simp [complete, hop])
  | binary op dst lhs rhs => exact hresult op.finish dst (by simp [complete, hop])
  | unary op dst src =>
    cases op with
    | not => simp [complete, hop, violate, fail] at h; cases h
    | neg | bnot | len => exact hresult id dst (by simp [complete, hop])
  | setGlobal name src => exact hnothing (by simp [complete, hop])
  | newIndex object key value => exact hnothing (by simp [complete, hop])
  | call func args results =>
    cases results with
    | fixed n =>
      by_cases hn : n = 0
      · refine (hnothing (by simp [complete, hop, hn])).congr fun r => ?_
        subst hn
        simp [Op.Writes, Count.Covers]
      · have hc : complete p pc = (do
            let values ← Body.lift resultList
            Body.setSlots func.toNat (padded n.toNat values) : Body F S Unit) := by
          simp [complete, hop, hn]
        rw [hc] at h
        obtain ⟨values, u, hu, h⟩ := ok_of_bind h
        have hread := Body.lift_stored hu fun m hm => by rw [orViolate_same hm]
        refine (hread.trans (Body.setSlots_stored h)).congr fun r => ?_
        rw [length_padded, false_or]
        exact Iff.rfl
    | «open» =>
      have hc : complete p pc = (do
          let values ← Body.lift resultList
          Body.setSlots func.toNat values
          Body.setTop (func.toNat + values.length) : Body F S Unit) := by
        simp [complete, hop]
      rw [hc] at h
      obtain ⟨values, u, hu, h⟩ := ok_of_bind h
      obtain ⟨_, w, hw, h⟩ := ok_of_bind h
      have hread := Body.lift_stored hu fun m hm => by rw [orViolate_same hm]
      obtain ⟨htop, htop'⟩ := Body.setTop_stored h
      refine ((hread.trans (Body.setSlots_stored hw)).trans htop).congr fun r => ?_
      rw [htop', false_or, or_false]
      exact Iff.rfl
  | nil | bool | const | move | varInit | varStore | getUpval | setUpval | closure | newTable
  | append | jump | test | tailCall | ret | vararg =>
    simp [complete, hop, violate, fail] at h
    cases h

/-- A variable that is introduced gets the next cell. -/
theorem varInit_stored {var src : Reg} {L : Ledger} {top n : Nat}
    (h : prepare f p pc (.varInit var src) s = .ok (.goto next) t) (hL : L.Fits n s.register) :
    t.frame = s.frame ∧
      (L.stored (.varInit var src) top s.machine.heap.cells.size).Fits n t.register := by
  obtain ⟨value, h⟩ := Body.getSlot_ok (goto_of_settled h)
  obtain ⟨frame, u, hframe, h⟩ := ok_of_bind h
  cases hframe
  obtain ⟨_, u, hu, h⟩ := ok_of_bind h
  cases h
  obtain ⟨hinit, hframe⟩ := Body.lift_ok hu
  obtain ⟨c, m, hc, hput⟩ := ok_of_bind hinit
  cases hc
  refine ⟨hframe, fun r hr => ?_⟩
  rw [Active.register, hframe, (putSlot_register hput).2 r]
  unfold Ledger.stored
  dsimp only
  split
  · rfl
  · exact hL r hr

/-- An assignment to a variable with a cell goes to the cell. -/
theorem store_cell {view : View} {i : Nat} {c : CellId} {m : Machine F S}
    (hcell : view.slot m.thread.stack i = .cell c) (x : Val) :
    store view i x m = putCell c x m := by
  have hslot : (slotAt view i : M F S Slot) m = .ok (.cell c) m :=
    congrArg (EStateM.Result.ok · m) hcell
  exact bind_of_ok hslot

/-- An assignment to a register without a cell goes to the register. -/
theorem store_bare {view : View} {i : Nat} {m : Machine F S}
    (hbare : (view.slot m.thread.stack i).cell? = none) (x : Val) :
    store view i x m = putValue view i x m := by
  cases hslot : view.slot m.thread.stack i with
  | cell c =>
    rw [hslot] at hbare
    cases hbare
  | value v =>
    have h : (slotAt view i : M F S Slot) m = .ok (.value v) m :=
      congrArg (EStateM.Result.ok · m) hslot
    exact bind_of_ok h

theorem varStore_execute (P : Perform F S) {var src : Reg} {m : Machine F S}
    (h : store s.frame.view var.toNat
      (s.frame.view.get s.machine.thread.stack s.machine.heap.cells src.toNat) s.machine =
        .ok () m) :
    execute P f p pc (.varStore var src) s = .ok (.goto (pc + 1)) ⟨s.frame, m⟩ := by
  have hframe : (Body.frame : Body F S Frame) s = .ok s.frame s := rfl
  have hget : (Body.getSlot src.toNat : Body F S Val) s =
    .ok (s.frame.view.get s.machine.thread.stack s.machine.heap.cells src.toNat) s := rfl
  exact (bind_of_ok hget).trans ((bind_of_ok hframe).trans (bind_of_ok (Body.lift_of_ok h)))

/-- An assignment to a variable does not change where it is. -/
theorem varStore_stored {var src : Reg} {L : Ledger} {top n cells : Nat}
    (h : prepare f p pc (.varStore var src) s = .ok (.goto next) t) (hL : L.Fits n s.register) :
    t.frame = s.frame ∧ (L.stored (.varStore var src) top cells).Fits n t.register := by
  obtain ⟨value, h⟩ := Body.getSlot_ok (goto_of_settled h)
  obtain ⟨frame, u, hframe, h⟩ := ok_of_bind h
  cases hframe
  obtain ⟨_, u, hu, h⟩ := ok_of_bind h
  cases h
  obtain ⟨hstore, hframe⟩ := Body.lift_ok hu
  refine ⟨hframe, fun r hr => ?_⟩
  replace hL : (L r).Allows (s.frame.view.slot s.machine.thread.stack r) := hL r hr
  show (L r).Allows (t.register r)
  rw [Active.register, hframe]
  cases hslot : s.frame.view.slot s.machine.thread.stack var.toNat with
  | cell c =>
    obtain ⟨_, m, hm, hput⟩ := ok_of_bind ((store_cell hslot value).symm.trans hstore)
    cases (note_ok _ _).symm.trans hm
    have hstack : t.machine.thread.stack = s.machine.thread.stack := by
      rw [← (EStateM.Result.ok.inj hput).2]
    rw [hstack]
    exact hL
  | value v =>
    have hput := (store_bare (congrArg Slot.cell? hslot) value).symm.trans hstore
    rw [(putSlot_register hput).2 r]
    split
    · subst r
      rw [hslot] at hL
      cases hmark : L var.toNat with
      | own c =>
        rw [hmark] at hL
        cases hL
      | value | shared => trivial
    · exact hL

/-- **Operations and ledgers.** The ledger follows an operation that calls nothing. -/
theorem prepare_fits [HostFunction F] {L : Ledger} {n : Nat}
    (h : prepare f p pc op s = .ok (.goto next) t) (hL : L.Fits n s.register) :
    t.frame.slots = s.frame.slots ∧
      (L.stored op t.frame.view.top s.machine.heap.cells.size).Fits n t.register := by
  by_cases hinit : ∃ var src, op = .varInit var src
  · obtain ⟨var, src, rfl⟩ := hinit
    obtain ⟨hframe, hfits⟩ := varInit_stored h hL
    exact ⟨by rw [hframe], hfits⟩
  by_cases hstore : ∃ var src, op = .varStore var src
  · obtain ⟨var, src, rfl⟩ := hstore
    obtain ⟨hframe, hfits⟩ := varStore_stored h hL
    exact ⟨by rw [hframe], hfits⟩
  have hinit : ∀ var src, op ≠ .varInit var src := fun var src h => hinit ⟨var, src, h⟩
  have hstore : ∀ var src, op ≠ .varStore var src := fun var src h => hstore ⟨var, src, h⟩
  have hstored := prepare_stored hinit hstore h
  exact ⟨hstored.slots, hstored.fits hinit hstore hL⟩

/-- The ledger follows the outcome of a call. -/
theorem complete_fits {L : Ledger} {n cells : Nat} (hop : p.code[pc]? = some op)
    (h : complete p pc s = .ok () t) (hL : L.Fits n s.register) :
    t.frame.slots = s.frame.slots ∧ (L.stored op t.frame.view.top cells).Fits n t.register := by
  have hstored := complete_stored hop h
  refine ⟨hstored.slots, hstored.fits ?_ ?_ hL⟩ <;>
  · rintro var src rfl
    simp [complete, hop, violate, fail] at h
    cases h

/-! ## Fresh frames -/

/-- Captured parameters get the next cells, one after the other. -/
theorem reifyParams_registers {slot n cells : Nat} (h : reifyParams p slot n s = .ok () t)
    (hcells : s.machine.heap.cells.size = cells + (List.range slot).countP p.isReified) :
    t.frame = s.frame ∧ ∀ r, t.register r =
      if slot ≤ r ∧ r < slot + n ∧ p.isReified r then
        .cell ⟨cells + (List.range r).countP p.isReified⟩
      else s.register r := by
  induction n generalizing slot s with
  | zero =>
    cases h
    exact ⟨rfl, fun r => by rw [if_neg (by omega)]⟩
  | succ n ih =>
    unfold reifyParams at h
    have hcount : (List.range (slot + 1)).countP p.isReified =
        (List.range slot).countP p.isReified + if p.isReified slot then 1 else 0 := by
      rw [List.range_succ, List.countP_append]
      simp [List.countP_cons]
    by_cases hslot : p.isReified slot
    · rw [if_pos hslot] at h
      obtain ⟨frame, u, hframe, h⟩ := ok_of_bind h
      cases hframe
      obtain ⟨c, u, hu, h⟩ := ok_of_bind h
      obtain ⟨hreify, huframe⟩ := Body.lift_ok hu
      obtain ⟨value, m, hvalue, hreify⟩ := ok_of_bind hreify
      cases hvalue
      obtain ⟨c', m', hc, hreify⟩ := ok_of_bind hreify
      cases hc
      obtain ⟨_, m, hput, hreify⟩ := ok_of_bind hreify
      cases hreify
      obtain ⟨hheap, hput⟩ := putSlot_register hput
      -- One more cell has been made, for one more captured parameter.
      obtain ⟨hframe, hregisters⟩ := ih h (by
        rw [hheap, hcount, if_pos hslot, ← Nat.add_assoc, ← hcells]
        exact Array.size_push _)
      refine ⟨hframe.trans huframe, fun r => ?_⟩
      have hregister : u.register r =
          if r = slot then .cell ⟨s.machine.heap.cells.size⟩ else s.register r := by
        rw [Active.register, huframe]
        exact hput r
      rw [hregisters, hregister]
      by_cases hr : r = slot
      · subst hr
        rw [if_neg (by omega), if_pos rfl, if_pos ⟨Nat.le_refl _, by omega, hslot⟩, hcells]
      · rw [if_neg hr]
        congr 1
        simp only [eq_iff_iff]
        constructor <;> rintro ⟨h₁, h₂, h₃⟩ <;> exact ⟨by omega, by omega, h₃⟩
    · rw [if_neg hslot] at h
      obtain ⟨hframe, hregisters⟩ := ih h (by rw [hcount, if_neg hslot]; exact hcells)
      refine ⟨hframe, fun r => ?_⟩
      rw [hregisters]
      by_cases hr : r = slot
      · subst hr
        rw [if_neg (by omega), if_neg fun h => hslot h.2.2]
      · congr 1
        simp only [eq_iff_iff]
        constructor <;> rintro ⟨h₁, h₂, h₃⟩ <;> exact ⟨by omega, by omega, h₃⟩

/-- A fresh frame is as the ledger starts. -/
theorem entry_fits {m u : Machine F S} {args : View} {frame : Frame}
    (hopen : openFrame p.layout args m = .ok frame u)
    (hparams : reifyParams p 0 p.params ⟨frame, u⟩ = .ok () s) :
    s.frame.slots = p.layout.slots ∧
      (Ledger.ofEntry p u.heap.cells.size).Fits p.layout.slots s.register := by
  obtain ⟨hframe, hregisters⟩ := reifyParams_registers hparams (Nat.add_zero _).symm
  obtain ⟨x, hx⟩ := openFrame_ok p.layout args m
  cases hx.symm.trans hopen
  refine ⟨by rw [hframe], fun r hr => ?_⟩
  rw [hregisters]
  unfold Ledger.ofEntry
  by_cases hin : p.params ≤ r
  · rw [if_pos hin, if_neg (by omega)]
    have hclear := (View.slot_clearRange (v := ⟨args.base, p.layout.params⟩)
      (s := (args.fit m.thread.stack p.layout.params).2) p.layout.params p.layout.slots
      (args.base + r)).trans (if_pos ⟨Nat.add_le_add_left hin _, Nat.add_lt_add_left hr _⟩)
    exact congrArg Slot.cell? hclear
  · rw [if_neg hin]
    split
    · rw [if_pos ⟨Nat.zero_le r, by omega, ‹_›⟩]
      rfl
    · trivial

end Interpreter

/-! ## The life of an activation -/

open Interpreter

/-- Where an activation stands: before the operation at a place in its code, or in a link. -/
inductive Spot (F S : Type)
  | at (pc : Nat) (s : Active F S)
  | left (link : Link)

/-- The ledger notes what is in the registers of an activation. -/
def Spot.Fits (slots : Nat) (L : Ledger) : Spot F S → Prop
  | .at _ s => s.frame.slots = slots ∧ L.Fits slots s.register
  | .left link => link.saved.slots.length = slots ∧ L.Fits slots (link.saved.slots.getD · .nil)

/-- The ledgers of an activation of a body: from its entry on, over operations that go on at once,
suspensions of the calls that they make, and resumptions on any machine and anywhere on its
stack, which may be suspended again. -/
inductive Lives [HostBody F S] (f : FnId) (p : Proto) : Spot F S → Ledger → Prop
  | entered {m u : Machine F S} {args : View} {frame : Frame} {s : Active F S}
    (hopen : openFrame p.layout args m = .ok frame u)
    (hparams : reifyParams p 0 p.params ⟨frame, u⟩ = .ok () s) :
    Lives f p (.at 0 s) (.ofEntry p u.heap.cells.size)
  | step {pc next n : Nat} {op : Op} {s t : Active F S} {L : Ledger} (h : Lives f p (.at pc s) L)
    (hop : p.code[pc]? = some op) (hstep : execute (perform n) f p pc op s = .ok (.goto next) t) :
    Lives f p (.at next t) ((L.exposed (op.windowAt p.layout.slots)).stored op t.frame.view.top
      s.machine.heap.cells.size)
  | suspended {pc n : Nat} {op : Op} {s t : Active F S} {L : Ledger} {c : Suspension}
    (h : Lives f p (.at pc s) L) (hop : p.code[pc]? = some op)
    (hstep : execute (perform n) f p pc op s = .error (.suspend c) t) :
    Lives f p (.left (linkOf f t.frame t.machine)) (L.exposed (op.windowAt p.layout.slots))
  | again {n : Nat} {link : Link} {L : Ledger} {m t u v : Machine F S} {view scratch : View}
    {frame : Frame} {inner : List Link} {values : List Val} {c : Suspension}
    (h : Lives f p (.left link) L)
    (hframe : reopenFrame p.layout view link.index link.saved m = .ok frame t)
    (hscratch : Body.scratchOf frame t = .ok scratch u)
    (hreplay : perform n (.replay inner values scratch) u = .error (.suspend c) v) :
    Lives f p (.left (linkOf f frame v)) L
  | resumed {n : Nat} {link : Link} {L : Ledger} {m t u v : Machine F S} {view scratch : View}
    {frame : Frame} {inner : List Link} {values : List Val} {op : Op} {s : Active F S}
    (h : Lives f p (.left link) L)
    (hframe : reopenFrame p.layout view link.index link.saved m = .ok frame t)
    (hscratch : Body.scratchOf frame t = .ok scratch u)
    (hreplay : perform n (.replay inner values scratch) u = .ok () v)
    (hop : p.code[link.index - 1]? = some op)
    (hcomplete : complete p (link.index - 1) ⟨frame, v⟩ = .ok () s) :
    Lives f p (.at link.index s) (L.stored op s.frame.view.top v.heap.cells.size)

section Lives

variable [HostBody F S] [QuietHost F S] {f : FnId} {p : Proto} {pc next n : Nat} {op : Op} {s t : Active F S}
variable {L : Ledger}

/-- While an operation calls, its registers below the window stay. -/
theorem Interpreter.Asks.exposes {window : View} {target : Val} {u : Machine F S} {m : Nat}
    (h : Asks f p pc op s window target t) (hL : L.Fits m s.register)
    (hu : EndsIn (perform n (.call window target) t.machine) u) :
    (L.exposed (op.windowAt s.frame.slots)).Fits m (Active.register ⟨t.frame, u⟩) := by
  refine hL.exposed fun r _ hr => ?_
  have hkept := h.kept.trans ((Dispatch.run_isolated n window (.call target)).kept hu)
  show t.frame.view.slot u.thread.stack r = _
  rw [h.frame]
  exact hkept.1 _ (by rw [h.base]; exact Nat.add_lt_add_left hr _)

/-- **Operations and ledgers.** The ledger follows an operation that goes on at once. -/
theorem Interpreter.execute_fits {m : Nat} (hop : p.code[pc]? = some op)
    (h : execute (perform n) f p pc op s = .ok (.goto next) t) (hL : L.Fits m s.register) :
    t.frame.slots = s.frame.slots ∧
      ((L.exposed (op.windowAt s.frame.slots)).stored op t.frame.view.top
        s.machine.heap.cells.size).Fits m t.register := by
  have heq := fun P => congrFun (execute_eq (F := F) (S := S) P f hop) s
  obtain ⟨turn, u, hturn, h⟩ := ok_of_bind ((heq _).symm.trans h)
  cases turn with
  | goto q =>
    cases h
    exact prepare_fits hturn (hL.exposed fun _ _ _ => rfl)
  | done => cases h
  | ask window target =>
    obtain ⟨hframe, hbase, hkept⟩ := prepare_asked hturn
    have hasks : Asks f p pc op s window target u :=
      ⟨fun P => (heq P).trans (bind_of_ok hturn), hframe, hbase, hkept⟩
    obtain ⟨_, v, hcall, h⟩ := ok_of_bind h
    obtain ⟨_, w, hcomplete, h⟩ := ok_of_bind h
    cases h
    obtain ⟨hperform, hvframe⟩ := Body.lift_ok hcall
    have hends : EndsIn (perform n (.call window target) u.machine) v.machine := by
      rw [hperform]
      rfl
    have hexposed := hasks.exposes hL hends
    rw [← hvframe] at hexposed
    obtain ⟨hslots, hfits⟩ := complete_fits hop hcomplete hexposed
    exact ⟨by rw [hslots, hvframe, hframe], hfits⟩

/-- A suspension of the call of an operation leaves the registers below its window. -/
theorem Interpreter.suspension_fits {m : Nat} {c : Suspension} (hop : p.code[pc]? = some op)
    (h : execute (perform n) f p pc op s = .error (.suspend c) t) (hL : L.Fits m s.register) :
    t.frame.slots = s.frame.slots ∧
      (L.exposed (op.windowAt s.frame.slots)).Fits m t.register := by
  have heq := fun P => congrFun (execute_eq (F := F) (S := S) P f hop) s
  cases hturn : prepare f p pc op s with
  | error e u =>
    cases (bind_of_error hturn).symm.trans ((heq _).symm.trans h)
    exact (prepare_plain hturn).elim
  | ok turn u =>
    replace h := (bind_of_ok hturn).symm.trans ((heq _).symm.trans h)
    cases turn with
    | goto q => cases h
    | done => cases h
    | ask window target =>
      obtain ⟨hframe, hbase, hkept⟩ := prepare_asked hturn
      have hasks : Asks f p pc op s window target u :=
        ⟨fun P => (heq P).trans (bind_of_ok hturn), hframe, hbase, hkept⟩
      obtain h | ⟨_, v, -, h⟩ := error_of_bind h
      · obtain ⟨hperform, htframe⟩ := Body.lift_error h
        have hends : EndsIn (perform n (.call window target) u.machine) t.machine := by
          rw [hperform]
          exact ⟨trivial, rfl⟩
        have hexposed := hasks.exposes hL hends
        rw [← htframe] at hexposed
        exact ⟨by rw [htframe, hframe], hexposed⟩
      · obtain h | ⟨_, _, -, h⟩ := error_of_bind h
        · exact (complete_plain hop h).elim
        · cases h

omit [HostBody F S] [QuietHost F S] in
/-- A link saves the registers of its frame. -/
theorem linkOf_fits {frame : Frame} {m : Machine F S} {k : Nat} (hslots : frame.slots = k)
    (hL : L.Fits k (Active.register ⟨frame, m⟩)) : (Spot.left (linkOf f frame m) : Spot F S).Fits k L := by
  refine ⟨(View.length_snapshot ..).trans hslots, fun r hr => ?_⟩
  have hslot : (linkOf f frame m).saved.slots.getD r .nil = Active.register ⟨frame, m⟩ r :=
    View.getD_snapshot _ _ (hslots ▸ hr)
  show (L r).Allows ((linkOf f frame m).saved.slots.getD r .nil)
  rw [hslot]
  exact hL r hr

/-- A frame that is laid out again has what was saved, also when the links below it have gone
on. -/
theorem replay_fits {k : Nat} {link : Link} {a b c d : Machine F S} {view scratch : View}
    {layout : Layout} {frame : Frame} {inner : List Link} {values : List Val}
    (hL : (Spot.left link : Spot F S).Fits layout.slots L)
    (hframe : reopenFrame layout view link.index link.saved a = .ok frame b)
    (hscratch : Body.scratchOf frame b = .ok scratch c)
    (hends : EndsIn (perform k (.replay inner values scratch) c) d) :
    frame.slots = layout.slots ∧ L.Fits layout.slots (Active.register ⟨frame, d⟩) := by
  obtain ⟨st, tr, hst, -, hrun⟩ := reopen_ok (α := Frame × View) layout view link.index link.saved a
  have hreopened : (do
      let frame ← reopenFrame layout view link.index link.saved
      let scratch ← Body.scratchOf frame
      pure (frame, scratch) : M F S (Frame × View)) a = .ok (frame, scratch) c :=
    (bind_of_ok hframe).trans (bind_of_ok hscratch)
  cases (hrun fun frame scratch => pure (frame, scratch)).symm.trans hreopened
  have hkept := (Dispatch.run_isolated k ⟨view.base + layout.slots, 0⟩
    (.replay inner values)).kept hends
  refine ⟨rfl, fun r hr => ?_⟩
  have hslot : Active.register (F := F) (S := S) ⟨⟨⟨view.base, link.saved.top⟩, link.index,
      layout.slots, link.saved.varargs⟩, d⟩ r = link.saved.slots.getD r .nil := by
    have hbelow : view.base + r < view.base + layout.slots := Nat.add_lt_add_left hr _
    refine (hkept.1 _ hbelow).trans ?_
    rw [restack_stack, hst, View.slot_restore, if_pos (by rw [hL.1]; omega),
      Nat.add_sub_cancel_left]
  rw [hslot]
  exact hL.2 r hr

/-- **Ledgers are right.** What the ledger of an activation notes is in its registers. -/
theorem Lives.sound {spot : Spot F S} (h : Lives f p spot L) : spot.Fits p.layout.slots L := by
  induction h with
  | entered hopen hparams => exact entry_fits hopen hparams
  | step _ hop hstep ih =>
    obtain ⟨hslots, hfits⟩ := execute_fits hop hstep ih.2
    rw [ih.1] at hslots hfits
    exact ⟨hslots, hfits⟩
  | suspended _ hop hstep ih =>
    obtain ⟨hslots, hfits⟩ := suspension_fits hop hstep ih.2
    rw [ih.1] at hslots hfits
    exact linkOf_fits hslots hfits
  | again _ hframe hscratch hreplay ih =>
    obtain ⟨hslots, hfits⟩ := replay_fits ih hframe hscratch (by rw [hreplay]; exact ⟨trivial, rfl⟩)
    exact linkOf_fits hslots hfits
  | resumed _ hframe hscratch hreplay hop hcomplete ih =>
    obtain ⟨hslots, hfits⟩ := replay_fits ih hframe hscratch (by rw [hreplay]; rfl)
    obtain ⟨hslots', hfits⟩ := complete_fits hop hcomplete hfits
    exact ⟨hslots'.trans hslots, hfits⟩

/-! ## What an activation captures and assigns -/

/-- What an activation with a ledger does with the cells of its registers before the operation at
`pc`. -/
structure Ledger.Governs (L : Ledger) (f : FnId) (p : Proto) (pc : Nat) (s : Active F S) :
    Prop where
  /-- What is noted is there. -/
  registers : ∀ r < p.layout.slots, (L r).Allows (s.register r)
  /-- A closure captures the cells that are noted. -/
  captures : ∀ P dst child q next t, execute P f p pc (.closure dst child) s = .ok next t →
    p.children[child.toNat]? = some q → ∃ g cells,
      t.register dst.toNat = .value (.fn g) ∧ t.machine.heap.function g = .closure q cells ∧
      ∀ (i : Nat) d r, q.upvalues[i]? = some d → d.capture = .slot r → r.toNat < p.layout.slots →
        ∃ c, cells[i]? = some c ∧ (L r.toNat).Allows (.cell c)
  /-- No closure captures a register that was written over. -/
  refuses : p.check = .ok () → ∀ dst child q r, p.code[pc]? = some (.closure dst child) →
    p.children[child.toNat]? = some q → q.Captures r → L r = .value →
      ∃ slot, q.Captures slot ∧ ∀ P, execute P f p pc (.closure dst child) s =
        .error (.fault (.contract (.neverReified q.name slot p.name))) s
  /-- An assignment goes to the cell that is noted. -/
  assigns : ∀ P (var src : Reg) c, var.toNat < p.layout.slots → L var.toNat = .own c →
    ∃ t, execute P f p pc (.varStore var src) s = .ok (.goto (pc + 1)) t ∧
      t.register = s.register ∧ t.machine.heap.cells = s.machine.heap.cells.setIfInBounds c.index
        (s.frame.view.get s.machine.thread.stack s.machine.heap.cells src.toNat)
  /-- An assignment to a register that was written over goes to no cell. -/
  overwrites : ∀ P (var src : Reg), var.toNat < p.layout.slots → L var.toNat = .value →
    ∃ t, execute P f p pc (.varStore var src) s = .ok (.goto (pc + 1)) t ∧
      t.machine.heap = s.machine.heap ∧ ∀ r, t.register r = if r = var.toNat then
        .value (s.frame.view.get s.machine.thread.stack s.machine.heap.cells src.toNat)
        else s.register r

/-- What an activation does goes by its ledger. -/
theorem Lives.governs (h : Lives f p (.at pc s) L) (hf : (s.machine.heap.function f).ClosureOf p) :
    L.Governs f p pc s := by
  obtain ⟨hslots, hL⟩ := h.sound
  refine { registers := hL, captures := ?_, refuses := ?_, assigns := ?_, overwrites := ?_ }
  · intro P dst child q next t h hq
    obtain ⟨v, u, hu, h⟩ := ok_of_bind h
    obtain ⟨q', cells, hq', rfl, rfl, hcells⟩ := makeClosure_ok hu
    cases hq.symm.trans hq'
    obtain ⟨_, w, hw, h⟩ := ok_of_bind h
    cases h
    obtain ⟨_, z, hz, hw⟩ := ok_of_bind hw
    cases hz
    obtain ⟨hput, hframe⟩ := Body.lift_ok hw
    obtain ⟨hheap, hregister⟩ := putSlot_register hput
    refine ⟨⟨s.machine.heap.functions.size⟩, cells, ?_, ?_, fun i d r hd hr hin => ?_⟩
    · rw [Active.register, hframe]
      exact (hregister _).trans (if_pos rfl)
    · rw [hheap, function_pushed, if_pos rfl]
    · obtain ⟨c, hc, hslot⟩ := hcells i d r hd hr
      exact ⟨c, hc, hslot ▸ hL r.toNat hin⟩
  · intro hcheck dst child q r hop hq hcaptures hmark
    obtain ⟨q', hq', hprovides⟩ := (Proto.fits_of_check hcheck hop).child _ rfl
    cases hq.symm.trans hq'
    obtain ⟨d, hd, slot, hslot, rfl⟩ := hcaptures
    have hin : slot.toNat < p.layout.slots := by
      have := hprovides d hd
      rw [hslot] at this
      rw [Proto.layout_slots hcheck]
      exact this.1
    have hbare := hL _ hin
    rw [hmark] at hbare
    obtain ⟨d, hd, slot, hslot, hrefuses⟩ :=
      captureCells_refuses (q := q) hf hprovides ⟨d, hd, hslot⟩ hbare #[]
    have hmake : makeClosure f p child.toNat s =
        .error (.fault (.contract (.neverReified q.name slot.toNat p.name))) s := by
      have hframe : (Body.frame : Body F S Frame) s = .ok s.frame s := rfl
      unfold makeClosure
      rw [hq]
      exact (bind_of_ok hframe).trans (Body.lift_of_error (bind_of_error hrefuses))
    exact ⟨slot.toNat, ⟨d, hd, slot, hslot, rfl⟩, fun P => bind_of_error hmake⟩
  · intro P var src c hin hmark
    have hcell := hL _ hin
    rw [hmark] at hcell
    exact ⟨_, varStore_execute P ((store_cell hcell _).trans (bind_of_ok (note_ok _ _))), rfl, rfl⟩
  · intro P var src hin hmark
    have hbare := hL _ hin
    rw [hmark] at hbare
    exact ⟨_, varStore_execute P (store_bare hbare _), rfl, View.slot_put⟩

end Lives

/-! ## Every place has a ledger -/

section Places

variable {f : FnId} {p : Proto} {pc n fuel : Nat} {s t : Active Empty PUnit} {L : Ledger}

/-- A loop of a body that is suspended leaves a link with a ledger. -/
theorem Lives.loop_left {c : Suspension} (h : Lives f p (.at pc s) L)
    (hloop : loop (perform n) f p fuel pc s = .error (.suspend c) t) :
    ∃ L', Lives f p (.left (linkOf f t.frame t.machine) : Spot Empty PUnit) L' := by
  induction fuel generalizing pc s L with
  | zero => cases hloop
  | succ fuel ih =>
    unfold loop at hloop
    cases hop : p.code[pc]? with
    | none =>
      rw [hop] at hloop
      cases hloop
    | some op =>
      rw [hop] at hloop
      obtain hstep | ⟨next, u, hstep, hloop⟩ := error_of_bind hloop
      · exact ⟨_, h.suspended hop hstep⟩
      · cases next with
        | goto q => exact ih (h.step hop hstep) hloop
        | done => cases hloop

/-- A run that goes on from a link with a ledger and is suspended leaves one, too. -/
theorem Lives.run_left {link : Link} {a b d e : Machine Empty PUnit} {view scratch : View}
    {frame : Frame} {inner : List Link} {values : List Val} {c : Suspension}
    (h : Lives f p (.left link : Spot Empty PUnit) L) (hlink : link.ResumesIn f p)
    (hframe : reopenFrame p.layout view link.index link.saved a = .ok frame b)
    (hscratch : Body.scratchOf frame b = .ok scratch d)
    (hreplay : perform n (.replay inner values scratch) d = .ok () e)
    (hrun : Interpreter.run fuel (perform n) f p ⟨frame, e⟩ = .error (.suspend c) t) :
    ∃ L', Lives f p (.left (linkOf f t.frame t.machine) : Spot Empty PUnit) L' := by
  have hindex : frame.index = link.index := by
    cases hframe
    rfl
  obtain ⟨pc, op, hpc, hop, -⟩ := hlink.index
  replace hop : p.code[link.index - 1]? = some op := by rw [hpc]; exact hop
  obtain ⟨hne, u, hu⟩ := hlink.completes (s := ⟨frame, e⟩) hindex (perform_settles hreplay)
  rw [hindex] at hu
  replace hrun : (if frame.index = 0 then (do
      reifyParams p 0 p.params
      loop (perform n) f p fuel 0)
    else (do
      complete p (frame.index - 1)
      loop (perform n) f p fuel frame.index) : Body Empty PUnit Unit) ⟨frame, e⟩ =
        .error (.suspend c) t := hrun
  rw [if_neg hne, hindex] at hrun
  exact (h.resumed hframe hscratch hreplay hop hu).loop_left ((bind_of_ok hu).symm.trans hrun)

/-- Every link that a closure leaves has a ledger. -/
theorem Pushes.lives {link : Link} (h : Pushes f p link) :
    ∃ L, Lives f p (.left link : Spot Empty PUnit) L := by
  induction h with
  | @called m t args n fuel values link chain hf h =>
    rw [runFunction_closure hf] at h
    obtain ⟨x, hopen⟩ := openFrame_ok p.layout args m
    obtain ⟨c, u, hrun, rfl⟩ := runBody_left ((bind_of_ok hopen).symm.trans h)
    obtain ⟨s, hparams⟩ := reifyParams_ok p 0 p.params ⟨_, _⟩
    exact (Lives.entered hopen hparams).loop_left ((bind_of_ok hparams).symm.trans hrun)
  | @reentered m t window n fuel inner chain values values' link link' hlink hf h ih =>
    obtain ⟨L, hL⟩ := ih
    have hresumes := hlink.sound
    obtain rfl := hresumes.function
    obtain ⟨u, v, hframe, hscratch, ⟨w, hreplay, hrun⟩ | ⟨c, w, hreplay, rfl⟩⟩ :=
      reenterFunction_left hf hresumes.index_ne_zero h
    · obtain ⟨c, t, hbody, rfl⟩ := runBody_left hrun
      exact hL.run_left hresumes hframe hscratch hreplay hbody
    · exact ⟨L, hL.again hframe hscratch hreplay⟩

/-- Every place to which a closure comes has a ledger. -/
theorem Visits.lives (h : Visits f p pc s) : ∃ L, Lives f p (.at pc s) L := by
  induction h with
  | called h hindex hparams =>
    cases h with
    | called hf hopen => exact ⟨_, .entered hopen hparams⟩
    | reentered hlink hf hframe hscratch hreplay =>
      cases hframe
      obtain ⟨pc, -, hpc, -⟩ := hlink.sound.index
      exact absurd (hpc.symm.trans hindex) (Nat.succ_ne_zero pc)
  | reentered h hindex hcomplete =>
    cases h with
    | called hf hopen =>
      obtain ⟨x, hx⟩ := openFrame_ok p.layout _ _
      cases hx.symm.trans hopen
      exact (hindex rfl).elim
    | @reentered m t u v window scratch n inner values link frame hlink hf hframe hscratch hreplay =>
      obtain ⟨L, hL⟩ := hlink.lives
      obtain ⟨pc, op, hpc, hop, -⟩ := hlink.sound.index
      replace hop : p.code[link.index - 1]? = some op := by rw [hpc]; exact hop
      have hindex : frame.index = link.index := by
        cases hframe
        rfl
      simp only [hindex] at hcomplete ⊢
      exact ⟨_, hL.resumed hframe hscratch hreplay hop hcomplete⟩
  | step h hop hstep ih =>
    obtain ⟨L, hL⟩ := ih
    exact ⟨_, hL.step hop hstep⟩

/-- **Cells of an activation.** At every place to which a closure over a body comes, through any
number of calls and suspensions, the activation captures and assigns the cells that its ledger
notes: those that it made for the register and did not write over. At a register that it has
written over a capture fails. The ledger tells nothing of a register that a call has covered since,
or of a parameter that is not captured. -/
theorem cells_governed (h : Visits f p pc s) :
    (∃ L, Lives f p (.at pc s) L) ∧ ∀ L, Lives f p (.at pc s) L → L.Governs f p pc s :=
  ⟨h.lives, fun _ hL => hL.governs h.kept.2⟩

/-- An activation of `Proto.counting` that has given its parameter a cell. -/
def counting : Active Empty PUnit where
  frame := ⟨⟨0, 1⟩, 0, 2, []⟩
  machine :=
    { start ⟨#[], #[.int 7], #[.closure .counting #[]], #[]⟩ ⟨200, 2, 100⟩ none ⟨⟩ with
      thread := ⟨.empty, ⟨#[.cell ⟨0⟩, .nil]⟩, 0, 0, none⟩ }

/-- Called with one value, `Proto.counting` starts with a cell of its own in register 0. -/
theorem cells_governed_counting :
    Visits ⟨0⟩ .counting 0 counting ∧ (∃ L, Lives ⟨0⟩ .counting (.at 0 counting) L) ∧
      ∀ L, Lives ⟨0⟩ .counting (.at 0 counting) L → L.Governs ⟨0⟩ .counting 0 counting := by
  let m : Machine Empty PUnit :=
    { start ⟨#[], #[], #[.closure .counting #[]], #[]⟩ ⟨200, 2, 100⟩ none ⟨⟩ with
      thread := ⟨.empty, ⟨#[.value (.int 7), .nil]⟩, 0, 0, none⟩ }
  have hopen : openFrame Proto.counting.layout ⟨0, 1⟩ m = .ok counting.frame m := rfl
  have hf : (m.heap.function ⟨0⟩).ClosureOf .counting := ⟨rfl, rfl⟩
  have h : Visits ⟨0⟩ .counting 0 counting := .called (.called hf hopen) rfl rfl
  exact ⟨h, cells_governed h⟩

end Places

/-! ## A cell of another activation -/

namespace Proto

/-- Stores to its parameter, which its closures could capture. -/
def keeping : Proto :=
  { ofName "keeping" with
    params := 1
    slots := 2
    reified := #[true]
    constants := #[.str "private"]
    code := #[.const 1 0, .varStore 0 1, .ret 0 (.fixed 0)] }

/-- Returns the variable that it captures in register 3. -/
def showing : Proto :=
  { ofName "showing" with
    slots := 1
    code := #[.getUpval 0 0, .ret 0 (.fixed 1)]
    upvalues := [⟨"x", .slot 3⟩] }

/-- Calls `keeping` on the registers from 3 on, and then makes and calls a closure over
`showing`. -/
def peeking : Proto :=
  { ofName "peeking" with
    slots := 4
    reified := #[false, false, false, true]
    code := #[.closure 2 0, .call 2 (.fixed 0) (.fixed 0), .closure 1 1,
      .call 1 (.fixed 0) (.fixed 1), .ret 1 (.fixed 1)]
    children := [keeping, showing] }

end Proto

/-- **A cell that a call leaves.** `Proto.peeking` passes the check and introduces no variable, so
it has no cell of its own. Its closure captures what `Proto.keeping` has left in register 3, and
returns a variable of that activation. -/
theorem captures_left_cell :
    Proto.peeking.check = .ok () ∧ Proto.peeking.params = 0 ∧
      (∀ op ∈ Proto.peeking.code, ∀ var src, op ≠ .varInit var src) ∧
      returned .peeking = [.str "private"] :=
  ⟨rfl, rfl, by simp [Proto.peeking], by decide +kernel⟩

end ScriptCore
