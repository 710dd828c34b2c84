import ScriptCore.Proofs.HandlerChains
import ScriptCore.Proofs.Entries

/-!
# Straight-line code

Where a body asks for nothing, it computes on its registers alone. `Op.settle?` is this computation
for one operation, as far as constants, registers and globals decide it, and `Proto.settle?` for
some operations in a row.

1. An operation that settles does the same to the registers of a frame (`execute_settles`), so a
   body comes to where its straight-line code leads (`loop_settles`).
2. On the way only the index of the frame, the stack and the trace are changed (`Active.Onward`),
   and a stack with room for the frame does not grow.
3. There the body ends with some registers as results or as a tail call (`loop_ret`,
   `loop_tailCall_fixed`), or calls a register and goes on (`loop_call_fixed`).
4. Over steps that call, the result channel may change too (`Active.Along`).
-/

namespace ScriptCore

open Machine Interpreter

variable {F S : Type}

/-! ## Room on the stack -/

namespace Stack

theorem growTo_of_le {s : Stack} {n : Nat} (h : n ≤ s.capacity) : s.growTo n = s := if_pos h

theorem capacity_put (s : Stack) (i : Nat) (x : Slot) :
    (s.put i x).capacity = (s.growTo (i + 1)).capacity := by
  simp [put, capacity]

end Stack

/-! ## Code on registers -/

/-- The registers after a write to one of them. -/
def writeReg? (regs : List Val) (r : Nat) (v : Val) : Option (List Val) :=
  if r < regs.length then some (regs.set r v) else none

/-- Where an operation that asks for nothing goes on, and the registers that it leaves. -/
def Op.settle? (constants : Array Val) (globals : Val → Option Val) (regs : List Val) (pc : Nat) :
    Op → Option (Nat × List Val)
  | .nil dst => do return (pc + 1, ← writeReg? regs dst.toNat .nil)
  | .bool dst b => do return (pc + 1, ← writeReg? regs dst.toNat (.bool b))
  | .const dst idx => do return (pc + 1, ← writeReg? regs dst.toNat (constants.getD idx.toNat .nil))
  | .move dst src => do return (pc + 1, ← writeReg? regs dst.toNat (← regs[src.toNat]?))
  | .getGlobal dst name => do
    return (pc + 1, ← writeReg? regs dst.toNat (← globals (constants.getD name.toNat .nil)))
  | .binary op dst lhs rhs => do
    let v ← (op.apply (← regs[lhs.toNat]?) (← regs[rhs.toNat]?)).toOption.join
    return (pc + 1, ← writeReg? regs dst.toNat v)
  | .jump dest => some (dest.toNat, regs)
  | .test cond when dest => do
    return (if (← regs[cond.toNat]?).truthy == when then dest.toNat else pc + 1, regs)
  | _ => none

/-- Where `k` operations in a row lead from `pc`, and the registers that they leave. -/
def Proto.settle? (p : Proto) (globals : Val → Option Val) :
    Nat → Nat → List Val → Option (Nat × List Val)
  | 0, pc, regs => some (pc, regs)
  | k + 1, pc, regs => do
    let (pc, regs) ← (← p.code[pc]?).settle? p.constants globals regs pc
    p.settle? globals k pc regs

section Code

variable {p : Proto} {op : Op} {globals : Val → Option Val} {k pc pc' : Nat} {regs regs' : List Val}

theorem Proto.settle?_succ (hop : p.code[pc]? = some op)
    (h : op.settle? p.constants globals regs pc = some (pc', regs')) (k : Nat) :
    p.settle? globals (k + 1) pc regs = p.settle? globals k pc' regs' := by
  rw [Proto.settle?, hop]
  show (op.settle? p.constants globals regs pc).bind _ = _
  rw [h]
  rfl

/-- Two stretches of code make one. -/
theorem Proto.settle?_trans (h : p.settle? globals k pc regs = some (pc', regs')) (l : Nat) :
    p.settle? globals (k + l) pc regs = p.settle? globals l pc' regs' := by
  induction k generalizing pc regs with
  | zero =>
    cases h
    rw [Nat.zero_add]
  | succ k ih =>
    obtain ⟨op, hop, h⟩ := Option.bind_eq_some_iff.1 h
    obtain ⟨⟨pc₁, regs₁⟩, hsettle, h⟩ := Option.bind_eq_some_iff.1 h
    rw [Nat.succ_add, Proto.settle?_succ hop hsettle, ih h]

/-- Operands that decide an operator. -/
theorem Op.settle?_binary {bop : BinOp} {dst lhs rhs : Reg} {a b v : Val}
    (hlhs : regs[lhs.toNat]? = some a) (hrhs : regs[rhs.toNat]? = some b)
    (happly : bop.apply a b = .ok (some v)) (hdst : dst.toNat < regs.length)
    (constants : Array Val) : (Op.binary bop dst lhs rhs).settle? constants globals regs pc =
      some (pc + 1, regs.set dst.toNat v) := by
  rw [Op.settle?, hlhs, hrhs]
  show ((bop.apply a b).toOption.join.bind fun v => _) = _
  rw [happly]
  show ((writeReg? regs dst.toNat _).bind fun regs => _) = _
  rw [writeReg?, if_pos hdst]
  rfl

/-- Integers are compared at once. -/
theorem BinOp.apply_eq (a b : Int64) :
    BinOp.eq.apply (.int a) (.int b) = .ok (some (.bool (decide (a = b)))) := by
  by_cases h : a = b
  · simp [BinOp.apply, Val.rawEq, h]
  · simp [BinOp.apply, Val.rawEq, Val.isTable, Val.kind, h]

theorem BinOp.apply_lt (a b : Int64) :
    BinOp.lt.apply (.int a) (.int b) = .ok (some (.bool (decide (a < b)))) := by
  have hcompare : (compare a b == .lt) = decide (a < b) := by
    show (compareOfLessAndEq a b == .lt) = _
    unfold compareOfLessAndEq
    by_cases hab : a < b
    · simp [hab]
    · by_cases heq : a = b <;> simp [hab, heq]
  rw [← hcompare]
  rfl

end Code

/-- The value of a global, if it is not nil. -/
def Machine.global? (m : Machine F S) (key : Val) : Option Val :=
  let v := (m.heap.table m.world.globals).get key
  if v.isNil then none else some v

namespace Active

/-! ## Registers of a frame -/

/-- The values of the registers of a frame. -/
def registers (s : Active F S) : List Val :=
  (⟨s.frame.view.base, s.frame.slots⟩ : View).live s.machine

/-- Nothing is changed but the index of the frame, the stack and the trace, and a stack with room
for the frame does not grow. -/
structure Onward (s t : Active F S) : Prop where
  frame : ∃ i, t.frame = { s.frame with index := i }
  machine : ∃ x y, t.machine = s.machine.restack x y
  capacity : s.frame.view.base + s.frame.slots ≤ s.machine.thread.stack.capacity →
    t.machine.thread.stack.capacity = s.machine.thread.stack.capacity

namespace Onward

variable {s t u : Active F S}

theorem refl (s : Active F S) : s.Onward s := ⟨⟨_, rfl⟩, ⟨_, _, rfl⟩, fun _ => rfl⟩

theorem trans (h : s.Onward t) (k : t.Onward u) : s.Onward u := by
  obtain ⟨i, hframe⟩ := h.frame
  obtain ⟨j, kframe⟩ := k.frame
  obtain ⟨x, y, hmachine⟩ := h.machine
  obtain ⟨x', y', kmachine⟩ := k.machine
  refine ⟨⟨j, by rw [kframe, hframe]⟩, ⟨x', y', by rw [kmachine, hmachine]; rfl⟩, fun hroom => ?_⟩
  rw [k.capacity (by rw [h.capacity hroom, hframe]; exact hroom), h.capacity hroom]

theorem slots (h : s.Onward t) : t.frame.slots = s.frame.slots := by
  obtain ⟨i, hframe⟩ := h.frame
  rw [hframe]

theorem heap (h : s.Onward t) : t.machine.heap = s.machine.heap := by
  obtain ⟨x, y, hmachine⟩ := h.machine
  rw [hmachine]
  rfl

theorem world (h : s.Onward t) : t.machine.world = s.machine.world := by
  obtain ⟨x, y, hmachine⟩ := h.machine
  rw [hmachine]
  rfl

end Onward

variable {s t : Active F S} {regs : List Val}

@[simp] theorem length_registers (s : Active F S) : s.registers.length = s.frame.slots :=
  View.length_live ..

theorem getElem_registers {i : Nat} (hi : i < s.registers.length) :
    s.registers[i] = s.frame.view.get s.machine.thread.stack s.machine.heap.cells i :=
  View.getElem_live hi

theorem getSlot_eq {i : Nat} {v : Val} (h : s.registers[i]? = some v) :
    Body.getSlot i s = .ok v s := by
  obtain ⟨hi, rfl⟩ := List.getElem?_eq_some_iff.1 h
  exact congrArg (EStateM.Result.ok · s) (getElem_registers hi).symm

/-- A step onward keeps the registers if it keeps the slots of the frame. -/
theorem Onward.registers_eq (h : s.Onward t)
    (hslots : ∀ r < s.frame.slots, t.machine.thread.stack.slot (s.frame.view.base + r) =
      s.machine.thread.stack.slot (s.frame.view.base + r)) : t.registers = s.registers := by
  obtain ⟨i, hframe⟩ := h.frame
  refine View.live_eq (by rw [length_registers, hframe]) fun r hr => ?_
  rw [getElem_registers hr, View.get, View.get, View.slot_eq, View.slot_eq, h.heap, hframe]
  exact congrArg (Slot.read _) (hslots r (by simpa using hr))

/-- A write to a register. -/
theorem setSlot_onward (v : Val) {r : Nat} (h : writeReg? s.registers r v = some regs) :
    ∃ t, Body.setSlot r v s = .ok () t ∧ s.Onward t ∧ t.registers = regs := by
  obtain ⟨hr, rfl⟩ : r < s.frame.slots ∧ s.registers.set r v = regs := by
    rw [writeReg?, length_registers] at h
    split at h
    · exact ⟨‹_›, Option.some.inj h⟩
    · cases h
  obtain ⟨x, hx⟩ := onStack_ok (fun t => ((), s.frame.view.put t r (.value v))) s.machine
  let stack := s.frame.view.put s.machine.thread.stack r (.value v)
  refine ⟨⟨s.frame, s.machine.restack stack x⟩, Body.lift_of_ok (x := putSlot _ r (.value v)) hx,
    ⟨⟨_, rfl⟩, ⟨_, _, rfl⟩, fun hroom => ?_⟩, View.live_eq (by simp) fun i hi => ?_⟩
  · exact (Stack.capacity_put ..).trans (congrArg _ (Stack.growTo_of_le (by omega)))
  · have hslot := Stack.slot_put s.machine.thread.stack (s.frame.view.base + r)
      (s.frame.view.base + i) (.value v)
    rw [View.get, View.slot_eq, List.getElem_set]
    refine (congrArg (Slot.read _) hslot).trans ?_
    by_cases hir : i = r
    · rw [if_pos (by rw [hir]), if_pos hir.symm]
      rfl
    · rw [if_neg (by omega), if_neg (Ne.symm hir)]
      exact (getElem_registers (by simpa using hi)).symm

/-- A window over some registers in a row. -/
theorem window_onward {first n : Nat} (h : first + n ≤ s.frame.slots) :
    let w : View := ⟨s.frame.view.base + first, n⟩
    ∃ t : Active F S,
      Body.lift (Machine.setTop (s.frame.view.child first) n) s = .ok w t ∧ s.Onward t ∧
      t.registers = s.registers ∧ w.live t.machine = (s.registers.drop first).take n := by
  intro w
  obtain ⟨x, hx⟩ := onStack_ok ((s.frame.view.child first).setTop · n) s.machine
  let t : Active F S := ⟨s.frame, s.machine.restack (w.growTo s.machine.thread.stack n) x⟩
  have honward : s.Onward t := by
    refine ⟨⟨_, rfl⟩, ⟨_, _, rfl⟩, fun hroom => congrArg _ (Stack.growTo_of_le ?_)⟩
    show s.frame.view.base + first + n ≤ _
    omega
  have hregs : t.registers = s.registers := honward.registers_eq fun r _ => View.slot_growTo ..
  refine ⟨t, Body.lift_of_ok hx, honward, hregs, ?_⟩
  rw [← hregs]
  refine View.live_eq ?_ fun i hi => ?_
  · rw [List.length_take, List.length_drop, length_registers]
    show n = min n (s.frame.slots - first)
    omega
  · rw [List.getElem_take, List.getElem_drop, getElem_registers, View.get, View.get, View.slot_eq,
      View.slot_eq, ← Nat.add_assoc]

/-- An empty window above the registers. -/
theorem scratch_onward (s : Active F S) :
    ∃ t, Body.scratch s = .ok ⟨s.frame.view.base + s.frame.slots, 0⟩ t ∧ s.Onward t ∧
      t.registers = s.registers := by
  obtain ⟨t, hwindow, honward, hregs, -⟩ :=
    window_onward (s := s) (show s.frame.slots + 0 ≤ s.frame.slots by omega)
  exact ⟨t, hwindow, honward, hregs⟩

end Active

/-! ## One operation -/

section Steps

variable {s : Active F S} {p : Proto} {op : Op} {pc pc' : Nat} {regs : List Val}

/-- A look-up finds what the table itself holds. -/
theorem index_held {m : Machine F S} {t : TableId} {key : Val} (P : Perform F S) (w : View)
    (h : (m.heap.table t).get key ≠ .nil) :
    index P w (.table t) key m = .ok ((m.heap.table t).get key) m := by
  have hnext : m.next? .index key (.table t) = none := if_pos (holds_table.2 h)
  have hprobe := probe_eq .index (.table t) key m
  rw [hnext] at hprobe
  rw [index_follows, Machine.follow]
  exact bind_of_ok hprobe

theorem index_global {m : Machine F S} {key v : Val} (P : Perform F S) (w : View)
    (h : m.global? key = some v) : index P w (.table m.world.globals) key m = .ok v m := by
  rw [global?] at h
  split at h
  · cases h
  · rename_i hnil
    exact Option.some.inj h ▸ index_held P w (mt isNil_iff.2 hnil)

theorem arith_apply {op : BinOp} {lhs rhs v : Val} (P : Perform F S) (w : View)
    (h : (op.apply lhs rhs).toOption.join = some v) (m : Machine F S) :
    arith P w op lhs rhs m = .ok v m := by
  cases happly : op.apply lhs rhs with
  | error e => rw [happly] at h; cases h
  | ok v? =>
    rw [happly] at h
    obtain rfl : v? = some v := h
    rw [arith, happly]
    rfl

/-- An operation that is answered at once stores the answer. -/
theorem answer_onward {dst : Nat} {v : Val} (h : writeReg? s.registers dst v = some regs) :
    ∃ t, s.Onward t ∧ t.registers = regs ∧ ∀ x : View → M F S Val,
      (∀ w (m : Machine F S), m.heap = s.machine.heap → m.world = s.machine.world →
        x w m = .ok v m) →
      (do
        Body.setIndex (pc + 1)
        let w ← Body.scratch
        Body.setSlot dst (← Body.lift (x w))
        return .goto (pc + 1) : Body F S Next) s = .ok (.goto (pc + 1)) t := by
  let s₁ : Active F S := ⟨{ s.frame with index := pc + 1 }, s.machine⟩
  have hindex : (Body.setIndex (pc + 1) : Body F S Unit) s = .ok () s₁ := rfl
  have hindexed : s.Onward s₁ := ⟨⟨_, rfl⟩, ⟨_, _, rfl⟩, fun _ => rfl⟩
  obtain ⟨s₂, hscratch, honward, hregs⟩ := s₁.scratch_onward
  have honward := hindexed.trans honward
  obtain ⟨t, hset, hstored, hstore⟩ := Active.setSlot_onward (s := s₂) v (hregs ▸ h)
  refine ⟨t, honward.trans hstored, hstore, fun x hx => ?_⟩
  let w : View := ⟨s.frame.view.base + s.frame.slots, 0⟩
  have hanswer := Body.lift_of_ok (hx w s₂.machine honward.heap honward.world)
  exact (bind_of_ok hindex).trans ((bind_of_ok hscratch).trans ((bind_of_ok hanswer).trans
    (bind_of_ok hset)))

/-- **One operation.** An operation that settles does to a frame what it does to its registers. -/
theorem execute_settles
    (h : op.settle? p.constants s.machine.global? s.registers pc = some (pc', regs)) :
    ∃ t, s.Onward t ∧ t.registers = regs ∧
      ∀ (P : Perform F S) f, execute P f p pc op s = .ok (.goto pc') t := by
  have hwrite : ∀ {r : Reg} {v : Val},
      (do return (pc + 1, ← writeReg? s.registers r.toNat v) : Option (Nat × List Val)) =
        some (pc', regs) →
      pc' = pc + 1 ∧ writeReg? s.registers r.toNat v = some regs := by
    intro r v h
    obtain ⟨_, hregs, h⟩ := Option.bind_eq_some_iff.1 h
    cases h
    exact ⟨rfl, hregs⟩
  cases op with
  | nil dst | bool dst b | const dst idx =>
    obtain ⟨rfl, hregs⟩ := hwrite h
    obtain ⟨t, hset, ht, hstore⟩ := Active.setSlot_onward _ hregs
    exact ⟨t, ht, hstore, fun P f => bind_of_ok hset⟩
  | move dst src =>
    obtain ⟨v, hv, h⟩ := Option.bind_eq_some_iff.1 h
    obtain ⟨rfl, hregs⟩ := hwrite h
    obtain ⟨t, hset, ht, hstore⟩ := Active.setSlot_onward _ hregs
    exact ⟨t, ht, hstore, fun P f => (bind_of_ok (Active.getSlot_eq hv)).trans (bind_of_ok hset)⟩
  | getGlobal dst name =>
    obtain ⟨v, hv, h⟩ := Option.bind_eq_some_iff.1 h
    obtain ⟨rfl, hregs⟩ := hwrite h
    obtain ⟨t, ht, hstore, hanswer⟩ := answer_onward hregs
    refine ⟨t, ht, hstore, fun P f => hanswer _ fun w m hheap hworld => ?_⟩
    exact (bind_of_ok rfl).trans (index_global P w (by rw [← hv, global?, global?, hheap, hworld]))
  | binary op dst lhs rhs =>
    obtain ⟨a, ha, h⟩ := Option.bind_eq_some_iff.1 h
    obtain ⟨b, hb, h⟩ := Option.bind_eq_some_iff.1 h
    obtain ⟨v, hv, h⟩ := Option.bind_eq_some_iff.1 h
    obtain ⟨rfl, hregs⟩ := hwrite h
    obtain ⟨t, ht, hstore, hanswer⟩ := answer_onward hregs
    refine ⟨t, ht, hstore, fun P f => (bind_of_ok (Active.getSlot_eq ha)).trans
      ((bind_of_ok (Active.getSlot_eq hb)).trans (hanswer _ fun w m _ _ => arith_apply P w hv m))⟩
  | jump dest =>
    cases h
    exact ⟨s, .refl s, rfl, fun _ _ => rfl⟩
  | test cond when dest =>
    obtain ⟨v, hv, h⟩ := Option.bind_eq_some_iff.1 h
    cases h
    refine ⟨s, .refl s, rfl, fun P f => (bind_of_ok (Active.getSlot_eq hv)).trans ?_⟩
    by_cases hgo : v.truthy == when
    · simp only [hgo, if_true]
      rfl
    · simp only [hgo]
      rfl
  | _ => cases h

end Steps

/-! ## Code in a row, and what comes after it -/

section Runs

variable {s : Active F S} {p : Proto} {pc pc' k : Nat} {regs : List Val}

/-- **Straight-line code.** A body comes to where its straight-line code leads. -/
theorem loop_settles (h : p.settle? s.machine.global? k pc s.registers = some (pc', regs)) :
    ∃ t, s.Onward t ∧ t.registers = regs ∧ ∀ (P : Perform F S) f n,
      loop P f p (k + n) pc s = loop P f p n pc' t := by
  induction k generalizing s pc with
  | zero =>
    cases h
    exact ⟨s, .refl s, rfl, fun P f n => by rw [Nat.zero_add]⟩
  | succ k ih =>
    obtain ⟨op, hop, h⟩ := Option.bind_eq_some_iff.1 h
    obtain ⟨⟨pc₁, regs₁⟩, hsettle, h⟩ := Option.bind_eq_some_iff.1 h
    obtain ⟨s₁, hfirst, rfl, hexecute⟩ := execute_settles hsettle
    -- No operation that settles writes a global, so the rest is decided by the same globals.
    have hglobals : s₁.machine.global? = s.machine.global? := by
      funext key
      rw [global?, global?, hfirst.heap, hfirst.world]
    obtain ⟨t, hrest, hregs, hloop⟩ := ih (hglobals ▸ h)
    refine ⟨t, hfirst.trans hrest, hregs, fun P f n => ?_⟩
    rw [Nat.succ_add, loop_execute P f hop]
    exact (bind_of_ok (hexecute P f)).trans (hloop P f n)

/-- Registers in a row hold a part of the registers. -/
theorem values_registers {first n : Nat} (h : first + n ≤ s.frame.slots) :
    s.frame.view.values s.machine.thread.stack s.machine.heap.cells first (first + n) =
      (s.registers.drop first).take n := by
  refine List.ext_getElem (by simp [View.values]; omega) fun i hi hi' => ?_
  simp only [View.values, List.getElem_map, List.getElem_range', List.getElem_take,
    List.getElem_drop, Nat.one_mul, Active.getElem_registers]

theorem spanValues_fixed {base : Nat} {n : UInt16} (h : base + n.toNat ≤ s.frame.slots) :
    spanValues base (.fixed n) s = .ok ((s.registers.drop base).take n.toNat) s :=
  congrArg (EStateM.Result.ok · s) (values_registers h)

/-- A body ends with some registers as results. -/
theorem loop_ret {base : Reg} {n : UInt16} (hop : p.code[pc]? = some (.ret base (.fixed n)))
    (hspan : base.toNat + n.toNat ≤ s.frame.slots) (P : Perform F S) (f : FnId) (fuel : Nat) :
    loop P f p (fuel + 1) pc s =
      .ok () ⟨s.frame, s.machine.withResults ((s.registers.drop base.toNat).take n.toNat)⟩ := by
  have hexecute : execute P f p pc (.ret base (.fixed n)) s =
      .ok .done ⟨s.frame, s.machine.withResults ((s.registers.drop base.toNat).take n.toNat)⟩ :=
    bind_of_ok (spanValues_fixed hspan)
  rw [loop_execute P f hop]
  exact bind_of_ok hexecute

variable {func : Reg} {n : UInt16} {target : Val}

/-- A machine with another result channel. -/
def Machine.withChannel (m : Machine F S) (r : Results) : Machine F S :=
  { m with thread := { m.thread with results := r } }

theorem next_ok (h : func.toNat + 1 < twoPow 16) :
    (Body.lift (orOverflow (Reg.next? func)) : Body F S Nat) s = .ok (func.toNat + 1) s := by
  rw [Reg.next?, if_pos h]
  rfl

/-- A body ends with a tail call of a register with the registers behind it. -/
theorem loop_tailCall_fixed (hop : p.code[pc]? = some (.tailCall func (.fixed n)))
    (hnext : func.toNat + 1 < twoPow 16) (htarget : s.registers[func.toNat]? = some target)
    (hspan : func.toNat + 1 + n.toNat ≤ s.frame.slots) (P : Perform F S) (f : FnId) (fuel : Nat) :
    loop P f p (fuel + 1) pc s = .ok () ⟨s.frame, s.machine.withChannel
      (.tailCall target ((s.registers.drop (func.toNat + 1)).take n.toNat))⟩ := by
  have hexecute : execute P f p pc (.tailCall func (.fixed n)) s = .ok .done ⟨s.frame,
      s.machine.withChannel
        (.tailCall target ((s.registers.drop (func.toNat + 1)).take n.toNat))⟩ :=
    (bind_of_ok (Active.getSlot_eq htarget)).trans ((bind_of_ok (next_ok hnext)).trans
      (bind_of_ok (spanValues_fixed hspan)))
  rw [loop_execute P f hop]
  exact bind_of_ok hexecute

/-- A body calls a register on a window over the registers behind it, and goes on when the result is
stored. -/
theorem loop_call_fixed {results : Count}
    (hop : p.code[pc]? = some (.call func (.fixed n) results)) (hnext : func.toNat + 1 < twoPow 16)
    (htarget : s.registers[func.toNat]? = some target)
    (hspan : func.toNat + 1 + n.toNat ≤ s.frame.slots) :
    let w : View := ⟨s.frame.view.base + (func.toNat + 1), n.toNat⟩
    ∃ t : Active F S, s.Onward t ∧
      w.live t.machine = (s.registers.drop (func.toNat + 1)).take n.toNat ∧
      ∀ (P : Perform F S) f fuel, loop P f p (fuel + 1) pc s = (do
        Body.lift (P (.call w target))
        complete p pc
        loop P f p fuel (pc + 1) : Body F S Unit) t := by
  intro w
  let s₁ : Active F S := ⟨{ s.frame with index := pc + 1 }, s.machine⟩
  have hindex : (Body.setIndex (pc + 1) : Body F S Unit) s = .ok () s₁ := rfl
  have hindexed : s.Onward s₁ := ⟨⟨_, rfl⟩, ⟨_, _, rfl⟩, fun _ => rfl⟩
  have hframe : (Body.frame : Body F S Frame) s₁ = .ok s₁.frame s₁ := rfl
  obtain ⟨t, hwindow, honward, -, hlive⟩ := s₁.window_onward hspan
  have hexecute : ∀ (P : Perform F S) f, execute P f p pc (.call func (.fixed n) results) s = (do
      Body.lift (P (.call w target))
      complete p pc
      return .goto (pc + 1) : Body F S Next) t := fun P f => by
    refine (bind_of_ok (Active.getSlot_eq htarget)).trans ((bind_of_ok (next_ok hnext)).trans ?_)
    have hcount : Body.lift (setTop (s₁.frame.view.child (func.toNat + 1))
        (func.toNat + 1 + n.toNat - (func.toNat + 1))) s₁ = .ok w t := by
      rw [Nat.add_sub_cancel_left]
      exact hwindow
    exact bind_at ((bind_of_ok hindex).trans ((bind_of_ok hframe).trans (bind_of_ok hcount)))
  refine ⟨t, hindexed.trans honward, hlive, fun P f fuel => ?_⟩
  rw [loop_execute P f hop]
  refine (bind_at (hexecute P f)).trans ?_
  simp only [bind_assoc, pure_bind]

/-- The result of a call is stored in its register. -/
theorem complete_call {args : Count} {v : Val}
    (hop : p.code[pc]? = some (.call func args (.fixed 1)))
    (hresults : s.machine.thread.results = .ofValues [v]) (hfunc : func.toNat < s.frame.slots) :
    ∃ t, complete p pc s = .ok () t ∧ s.Onward t ∧ t.registers = s.registers.set func.toNat v := by
  have hlist : Body.lift resultList s = .ok [v] s := Body.lift_of_ok <| by
    show orViolate s.machine.thread.results.read _ = _
    rw [hresults]
    rfl
  have hwrite : writeReg? s.registers func.toNat v = some (s.registers.set func.toNat v) :=
    if_pos (by rwa [Active.length_registers])
  obtain ⟨t, hset, honward, hregs⟩ := Active.setSlot_onward v hwrite
  refine ⟨t, ?_, honward, hregs⟩
  unfold complete
  rw [hop]
  exact (bind_of_ok hlist).trans (bind_of_ok hset)

end Runs

/-! ## Fresh frames -/

section Entry

variable {m : Machine F S} {layout : Layout} {args : List Val} {frame : Frame} {p : Proto}

/-- The registers of a fresh frame are the arguments, and nil. -/
theorem Machine.Fresh.registers_eq (h : m.Fresh layout args frame)
    (hargs : args.length ≤ layout.params) :
    (⟨frame, m⟩ : Active F S).registers = padded layout.slots args := by
  refine List.ext_getElem (by simp [h.slots, length_padded]) fun r hr _ => ?_
  have hslots : r < layout.slots := by simpa [h.slots] using hr
  rw [Active.getElem_registers]
  simp only [padded_eq, List.getElem_map, List.getElem_range]
  by_cases hparam : r < layout.params
  · exact h.params r hparam
  · rw [View.get, h.registers r (Nat.le_of_not_lt hparam) hslots, List.getD_eq_getElem?_getD,
      List.getElem?_eq_none (by omega)]
    rfl

/-- A body with no captured parameter starts with its first operation. -/
theorem run_fresh (hbare : ∀ r, ¬ p.isReified r) (h : frame.index = 0) (fuel : Nat)
    (P : Perform F S) (f : FnId) : run fuel P f p ⟨frame, m⟩ = loop P f p fuel 0 ⟨frame, m⟩ := by
  have hparams : ∀ n slot, (reifyParams p slot n : Body F S Unit) = pure () := by
    intro n
    induction n with
    | zero => exact fun _ => rfl
    | succ n ih =>
      intro slot
      rw [reifyParams, ih, if_neg (hbare slot)]
  show (if frame.index = 0 then _ else _ : Body F S Unit) ⟨frame, m⟩ = _
  rw [if_pos h, hparams]
  rfl

/-- A body on a fresh frame comes to where the code from its first operation on leads. -/
theorem run_settles {k pc : Nat} {regs : List Val} (hbare : ∀ r, ¬ p.isReified r)
    (h : m.Fresh p.layout args frame) (hargs : args.length ≤ p.layout.params)
    (hsettle : p.settle? m.global? k 0 (padded p.layout.slots args) = some (pc, regs)) :
    ∃ t, Active.Onward ⟨frame, m⟩ t ∧ t.registers = regs ∧ ∀ (P : Perform F S) f n,
      run (k + n) P f p ⟨frame, m⟩ = loop P f p n pc t := by
  rw [← h.registers_eq hargs] at hsettle
  obtain ⟨t, honward, hregs, hloop⟩ := loop_settles (s := ⟨frame, m⟩) hsettle
  refine ⟨t, honward, hregs, fun P f n => ?_⟩
  rw [run_fresh hbare h.index, hloop]

end Entry

/-! ## Steps over calls -/

namespace Active

/-- Nothing is changed but the index of the frame, the result channel, the stack and the trace. -/
structure Along (s t : Active F S) : Prop where
  frame : ∃ i, t.frame = { s.frame with index := i }
  machine : ∃ x y r, t.machine = (s.machine.restack x y).withChannel r

section

variable {s t u : Active F S}

namespace Along

theorem trans (h : s.Along t) (k : t.Along u) : s.Along u := by
  obtain ⟨i, hframe⟩ := h.frame
  obtain ⟨j, kframe⟩ := k.frame
  obtain ⟨x, y, r, hmachine⟩ := h.machine
  obtain ⟨x', y', r', kmachine⟩ := k.machine
  exact ⟨⟨j, by rw [kframe, hframe]⟩, ⟨x', y', r', by rw [kmachine, hmachine]; rfl⟩⟩

theorem base (h : s.Along t) : t.frame.view.base = s.frame.view.base := by
  obtain ⟨i, hframe⟩ := h.frame
  rw [hframe]

theorem slots (h : s.Along t) : t.frame.slots = s.frame.slots := by
  obtain ⟨i, hframe⟩ := h.frame
  rw [hframe]

theorem heap (h : s.Along t) : t.machine.heap = s.machine.heap := by
  obtain ⟨x, y, r, hmachine⟩ := h.machine
  rw [hmachine]
  rfl

theorem world (h : s.Along t) : t.machine.world = s.machine.world := by
  obtain ⟨x, y, r, hmachine⟩ := h.machine
  rw [hmachine]
  rfl

theorem depth (h : s.Along t) : t.machine.thread.depth = s.machine.thread.depth := by
  obtain ⟨x, y, r, hmachine⟩ := h.machine
  rw [hmachine]
  rfl

end Along

theorem Onward.along (h : s.Onward t) : s.Along t where
  frame := h.frame
  machine := by
    obtain ⟨x, y, hmachine⟩ := h.machine
    exact ⟨x, y, s.machine.thread.results, hmachine⟩

end

end Active

end ScriptCore
