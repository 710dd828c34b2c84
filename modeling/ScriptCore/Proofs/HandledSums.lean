import ScriptCore.Proofs.Recursion

/-!
# Sums over a handler

A compiled body adds a table to a sum some times, and counts the additions. The handler of the table
for additions gives the other operand and one more.

1. An operator whose first operand has a handler calls it on a window above the registers
   (`execute_handled`); what comes back is stored.
2. So one turn of the loop adds 1 to the sum, and with straight-line code before and after it the
   body comes from the head of its loop to the next head (`metaAdd_turn`).
3. By induction on the count the body gives the number of its turns, or the stack overflow of the
   first call of the handler, if there is no room for it (`perform_adds`, `perform_adds_full`).
-/

namespace ScriptCore

open Machine Interpreter

variable {F S : Type}

/-! ## Operators with a handler -/

/-- An operator that leaves its operands to the handler of the first one calls it. -/
theorem arith_handled {m : Machine F S} {op : BinOp} {lhs rhs h : Val}
    (happly : op.apply lhs rhs = .ok none) (hh : m.handler? lhs op.event = some h) (w : View) :
    ∃ x y, x.capacity = Stack.grown (w.base + 2) m.thread.stack.capacity ∧
      Stack.KeptBelow w.base m.thread.stack x ∧
      (⟨w.base, 2⟩ : View).live (m.restack x y) = [lhs, rhs] ∧
      ∀ P : Perform F S, arith P w op lhs rhs m = (do
        P (.call ⟨w.base, 2⟩ h)
        return op.finish (← result 0)) (m.restack x y) := by
  have hhandler : handlerOf op.event lhs rhs m = .ok (some h) m := by
    refine (bind_of_ok (metamethod_eq lhs op.event m)).trans ?_
    rw [hh]
    rfl
  obtain ⟨z, hz⟩ := record_ok m fun _ => .binaryHandler op.event lhs.kind rhs.kind
  obtain ⟨y, hy⟩ := onStack_ok (w.load · [lhs, rhs]) { m with trace := z }
  refine ⟨(w.load m.thread.stack [lhs, rhs]).2, y, View.capacity_load .., View.keptBelow_load ..,
    View.live_load w m y, fun P => ?_⟩
  have hcall : callMeta P w h [lhs, rhs] { m with trace := z } =
      (do P (.call ⟨w.base, 2⟩ h); result 0 : M F S Val)
        (m.restack (w.load m.thread.stack [lhs, rhs]).2 y) := by
    unfold callMeta callWith
    rw [bind_assoc]
    exact bind_of_ok hy
  unfold arith
  rw [happly]
  refine (bind_of_ok hhandler).trans ((bind_of_ok hz).trans ?_)
  refine (bind_at hcall).trans ?_
  rw [bind_assoc]

/-! ## Steps that take room above the frame -/

namespace Active

/-- Steps for which the stack provides some slots from the base of the frame on. -/
structure Grows (need : Nat) (s t : Active F S) : Prop extends s.Along t where
  capacity : t.machine.thread.stack.capacity =
    Stack.grown (s.frame.view.base + need) s.machine.thread.stack.capacity

namespace Grows

variable {need : Nat} {s t u : Active F S}

theorem room (h : s.Grows need t) :
    s.frame.view.base + need ≤ t.machine.thread.stack.capacity := by
  rw [h.capacity]
  exact Stack.le_grown ..

/-- What was provided once is there. -/
theorem trans (h : s.Grows need t) (k : t.Grows need u) : s.Grows need u where
  toAlong := h.toAlong.trans k.toAlong
  capacity := by rw [k.capacity, h.base, Stack.grown_of_le h.room, h.capacity]

end Grows

/-- A step onward on a stack with some room. -/
theorem Onward.grows {need : Nat} {s t : Active F S} (h : s.Onward t)
    (hslots : s.frame.slots ≤ need)
    (hroom : s.frame.view.base + need ≤ s.machine.thread.stack.capacity) : s.Grows need t where
  toAlong := h.along
  capacity := by rw [h.capacity (by omega), Stack.grown_of_le hroom]

/-- Steps onward before one that takes room. -/
theorem Onward.then {need : Nat} {s t u : Active F S} (h : s.Onward t)
    (hroom : s.frame.view.base + s.frame.slots ≤ s.machine.thread.stack.capacity)
    (k : t.Grows need u) : s.Grows need u where
  toAlong := h.along.trans k.toAlong
  capacity := by rw [k.capacity, h.capacity hroom, h.along.base]

end Active

section Steps

theorem lift_at {α : Type} {x y : M F S α} {s : Active F S} {m : Machine F S}
    (h : x s.machine = y m) : Body.lift x s = Body.lift y ⟨s.frame, m⟩ := by
  simp only [Body.lift, h]

variable {s : Active F S} {op : BinOp} {lhs rhs : Reg} {a b h : Val}

/-- **An operator with a handler** calls it above the registers. -/
theorem execute_handled (p : Proto) (pc : Nat) (dst : Reg) (ha : s.registers[lhs.toNat]? = some a)
    (hb : s.registers[rhs.toNat]? = some b) (happly : op.apply a b = .ok none)
    (hh : s.machine.handler? a op.event = some h)
    (hroom : s.frame.view.base + s.frame.slots ≤ s.machine.thread.stack.capacity) :
    let w : View := ⟨s.frame.view.base + s.frame.slots, 2⟩
    ∃ t : Active F S, s.Grows (s.frame.slots + 2) t ∧ t.registers = s.registers ∧
      w.live t.machine = [a, b] ∧
      ∀ (P : Perform F S) f, execute P f p pc (.binary op dst lhs rhs) s = (do
        Body.lift (P (.call w h))
        Body.setSlot dst.toNat (op.finish (← Body.lift (result 0)))
        return .goto (pc + 1) : Body F S Next) t := by
  intro w
  let s₁ : Active F S := ⟨{ s.frame with index := pc + 1 }, s.machine⟩
  have hindex : (Body.setIndex (pc + 1) : Body F S Unit) s = .ok () s₁ := rfl
  obtain ⟨⟨g, u⟩, hscratch, honward, hregs⟩ := s₁.scratch_onward
  obtain ⟨i, rfl : g = _⟩ := honward.frame
  obtain ⟨x, y, rfl : u = _⟩ := honward.machine
  have hkept := honward.capacity hroom
  obtain ⟨x', y', hcapacity, hbelow, hlive, harith⟩ := arith_handled (m := s.machine.restack x y)
    happly hh ⟨s.frame.view.base + s.frame.slots, 0⟩
  let t : Active F S := ⟨{ s.frame with index := i }, (s.machine.restack x y).restack x' y'⟩
  -- The operands of the handler are loaded behind the frame, so no register has changed.
  have hsame : t.registers = s.registers := by
    refine Eq.trans ?_ hregs
    refine View.live_eq
      (Active.length_registers ⟨{ s.frame with index := i }, _⟩).symm fun r hr => ?_
    have hr : r < s.frame.slots := by simpa using hr
    rw [Active.getElem_registers]
    exact congrArg (Slot.read _) (hbelow.slot _ (Nat.add_lt_add_left hr _))
  have halong : s.Along t := ⟨⟨i, rfl⟩, ⟨x', y', s.machine.thread.results, rfl⟩⟩
  refine ⟨t, ⟨halong, ?_⟩, hsame, hlive, fun P f => ?_⟩
  · exact hcapacity.trans (congrArg₂ Stack.grown (Nat.add_assoc ..) hkept)
  · refine (bind_of_ok (Active.getSlot_eq ha)).trans ((bind_of_ok (Active.getSlot_eq hb)).trans ?_)
    refine (bind_of_ok hindex).trans ((bind_of_ok hscratch).trans ?_)
    have hlift : Body.lift (arith P ⟨s.frame.view.base + s.frame.slots, 0⟩ op a b)
        ⟨{ s.frame with index := i }, s.machine.restack x y⟩ = (do
          Body.lift (P (.call w h))
          return op.finish (← Body.lift (result 0)) : Body F S Val) t := by
      have hat := lift_at (s := ⟨{ s.frame with index := i }, s.machine.restack x y⟩) (harith P)
      rw [hat]
      simp only [Body.lift_bind, Body.lift_pure]
      rfl
    refine (bind_at hlift).trans ?_
    simp only [bind_assoc, pure_bind]

end Steps

/-! ## The handler -/

/-- The handler gives the second operand and one more. -/
theorem Routine.counterAdd_ok {m : Machine F S} {w : View} {a : Val} {k j : Int64}
    (hlive : w.live m = [a, .int k]) (hnext : Integer.checkedAdd k 1 = some j) :
    counterAdd w m = .ok () (m.withResults [.int j]) := by
  have htop : w.top = 2 := View.top_of_live hlive
  have hvalue : valueAt w 1 m = .ok (.int k) m := valueAt_live (by rw [hlive]; rfl)
  have harg : (Args.arg w 2 : M F S Val) m = .ok (.int k) m := by
    rw [Args.arg, if_neg (by omega)]
    exact hvalue
  have hcheck : (Args.checkInt w 2 "__add" : M F S Int64) m = .ok k m := bind_of_ok harg
  unfold counterAdd
  rw [bind_of_ok hcheck, hnext]
  rfl

/-! ## The loop -/

namespace Bodies

/-- The registers at the head of the loop: the sum is the count. -/
def sumRegs (n : Int64) (c : Val) (k : Int64) (x : Val) : List Val := [.int n, c, .int k, .int k, x]

section Code

variable {globals : Val → Option Val} {n k : Int64} {c x : Val}

theorem metaAdd_bare (r : Nat) : ¬ metaAdd.isReified r := Bool.false_ne_true

theorem metaAdd_settles_entry (hc : globals (.str "counter") = some c) :
    metaAdd.settle? globals 3 0 [.int n, .nil, .nil, .nil, .nil] =
      some (3, sumRegs n c 0 .nil) := by
  have hlookup : (Op.getGlobal 1 2).settle? metaAdd.constants globals
      [.int n, .nil, .nil, .nil, .nil] 0 = some (1, [.int n, c, .nil, .nil, .nil]) := by
    show ((globals (.str "counter")).bind fun v => _) = _
    rw [hc]
    rfl
  exact (Proto.settle?_succ rfl hlookup 2).trans rfl

theorem metaAdd_settles_test (globals : Val → Option Val) (n k : Int64) (c x : Val) :
    metaAdd.settle? globals 2 3 (sumRegs n c k x) =
      some (if k < n then 5 else 9, sumRegs n c k (.bool (decide (k < n)))) := by
  have htest : (Op.binary .lt 4 3 0).settle? metaAdd.constants globals (sumRegs n c k x) 3 =
      some (4, sumRegs n c k (.bool (decide (k < n)))) :=
    Op.settle?_binary rfl rfl (BinOp.apply_lt k n) (by show 4 < 5; omega) _
  refine (Proto.settle?_succ rfl htest 1).trans ?_
  by_cases h : k < n
  · rw [if_pos h, decide_eq_true h]
    rfl
  · rw [if_neg h, decide_eq_false h]
    rfl

theorem metaAdd_settles_next (globals : Val → Option Val) (n k : Int64) (c x : Val) :
    metaAdd.settle? globals 3 6 [.int n, c, .int (k + 1), .int k, x] =
      some (3, sumRegs n c (k + 1) (.int 1)) := rfl

end Code

/-! ## One turn -/

/-- At the head of the loop the sum is the count. -/
def AtSum (s : Active F S) (n : Int64) (c : TableId) (k : Nat) : Prop :=
  ∃ x, s.registers = sumRegs n (.table c) (.ofNat k) x

section Turn

variable {s : Active F S} {n : Int64} {c : TableId} {k : Nat}

theorem AtSum.slots (h : AtSum s n c k) : s.frame.slots = 5 := by
  obtain ⟨x, hregs⟩ := h
  rw [← Active.length_registers, hregs]
  rfl

/-- A count below an integer is one of the machine, and so is the next one. -/
theorem count_below (hk : k < n.toInt.toNat) : Int64.ofNat k < n ∧
    Integer.checkedAdd (.ofNat k) 1 = some (.ofNat (k + 1)) := by
  have hlt := n.toInt_lt
  have hcount : (Int64.ofNat k).toInt = k := Int64.toInt_ofNat_of_lt (by omega)
  have hone : (1 : Int64).toInt = 1 := rfl
  rw [Int64.lt_iff_toInt_lt, Integer.checkedAdd_of_range (by omega) (by omega), Int64.ofNat_add]
  exact ⟨by omega, rfl⟩

/-- Below the end the body calls the handler with the table and the sum. -/
theorem metaAdd_asks (h : AtSum s n c k) (hk : Int64.ofNat k < n) {handler : Val}
    (hh : s.machine.handler? (.table c) .add = some handler)
    (hroom : s.frame.view.base + 5 ≤ s.machine.thread.stack.capacity) :
    let w : View := ⟨s.frame.view.base + 5, 2⟩
    ∃ t : Active F S, s.Grows 7 t ∧ t.registers = sumRegs n (.table c) (.ofNat k) (.bool true) ∧
      w.live t.machine = [.table c, .int (.ofNat k)] ∧
      ∀ (P : Perform F S) f j, loop P f metaAdd (j + 6) 3 s = (do
        Body.lift (P (.call w handler))
        Body.setSlot 2 (← Body.lift (result 0))
        loop P f metaAdd (j + 3) 6 : Body F S Unit) t := by
  intro w
  have hslots := h.slots
  obtain ⟨x, hregs⟩ := h
  have hsettle := metaAdd_settles_test s.machine.global? n (.ofNat k) (.table c) x
  rw [if_pos hk, decide_eq_true hk, ← hregs] at hsettle
  obtain ⟨u, hu, huregs, hloop⟩ := loop_settles hsettle
  have hkept := hu.capacity (by rw [hslots]; exact hroom)
  have hubase := hu.along.base
  have huslots : u.frame.slots = 5 := hu.slots.trans hslots
  have hhandler : u.machine.handler? (.table c) BinOp.add.event = some handler := by
    obtain ⟨a, b, hmachine⟩ := hu.machine
    rw [hmachine]
    exact hh
  have hop : metaAdd.code[5]? = some (.binary .add 2 1 2) := rfl
  have hlhs : u.registers[(1 : Reg).toNat]? = some (.table c) := by
    rw [huregs]
    rfl
  have hrhs : u.registers[(2 : Reg).toNat]? = some (.int (.ofNat k)) := by
    rw [huregs]
    rfl
  obtain ⟨t, ht, htregs, hlive, hexecute⟩ := execute_handled metaAdd 5 2 hlhs hrhs rfl hhandler
    (by rw [hkept, hubase, huslots]; exact hroom)
  rw [huslots] at ht hlive
  rw [hubase] at hlive
  refine ⟨t, hu.then (by rw [hslots]; exact hroom) ht, htregs.trans huregs, hlive, fun P f j => ?_⟩
  rw [show j + 6 = 2 + (j + 3 + 1) by omega, hloop, loop_execute P f hop]
  refine (bind_at (hexecute P f)).trans ?_
  rw [huslots, hubase]
  simp only [bind_assoc, pure_bind]
  rfl

variable [HostBody F S] {g : FnId}

/-- **One turn** adds 1 to the sum and to the count. -/
theorem metaAdd_turn (h : AtSum s n c k) (hk : k < n.toInt.toNat)
    (hh : s.machine.handler? (.table c) .add = some (.fn g))
    (hg : s.machine.heap.function g = .builtin .counterAdd)
    (hroom : s.frame.view.base + 5 ≤ s.machine.thread.stack.capacity)
    (hdepth : s.machine.thread.depth < s.machine.world.config.maxCallDepth) (fuel : Nat) :
    ∃ t, s.Grows 7 t ∧ AtSum t n c (k + 1) ∧ ∀ f j,
      loop (perform (fuel + 2)) f metaAdd (j + 6) 3 s =
        loop (perform (fuel + 2)) f metaAdd j 3 t := by
  obtain ⟨hbelow, hnext⟩ := count_below hk
  obtain ⟨t, ht, htregs, hlive, hask⟩ := metaAdd_asks h hbelow hh hroom
  have hg' : t.machine.heap.function g = .builtin .counterAdd := ht.heap ▸ hg
  obtain ⟨y, hcall⟩ := perform_builtin (w := ⟨s.frame.view.base + 5, 2⟩) hg'
    (.inr rfl) (by rw [ht.world, ht.depth]; exact hdepth)
    (fun P y => Routine.counterAdd_ok
      (m := entered (t.machine.restack t.machine.thread.stack y)) hlive hnext) fuel
  let u : Active F S := ⟨t.frame,
    (t.machine.restack t.machine.thread.stack y).withResults [.int (.ofNat (k + 1))]⟩
  have hu : t.Grows 7 u := ⟨⟨⟨_, rfl⟩, ⟨_, _, _, rfl⟩⟩, by
    rw [ht.base]
    exact (Stack.grown_of_le ht.room).symm⟩
  have hwrite : writeReg? u.registers 2 (.int (.ofNat (k + 1))) =
      some [.int n, .table c, .int (.ofNat k + 1), .int (.ofNat k), .bool true] := by
    rw [show u.registers = _ from htregs, Int64.ofNat_add]
    rfl
  obtain ⟨v, hset, hv, hvregs⟩ := Active.setSlot_onward _ hwrite
  -- What is left of the turn asks for nothing.
  have hsettle := metaAdd_settles_next v.machine.global? n (.ofNat k) (.table c) (.bool true)
  rw [← hvregs] at hsettle
  obtain ⟨z, hz, hzregs, hloop⟩ := loop_settles hsettle
  have hslots : u.frame.slots = 5 := ht.slots.trans h.slots
  have hrest : u.Grows 7 z := (hv.trans hz).grows (by omega) (by
    rw [hu.base, ht.base, hu.capacity]
    exact ht.room.trans (Stack.capacity_le_grown ..))
  refine ⟨z, (ht.trans hu).trans hrest, ⟨.int 1, ?_⟩, fun f j => (hask _ f j).trans ?_⟩
  · rw [hzregs, Int64.ofNat_add]
    rfl
  · have hresult : Body.lift (result 0) u = .ok (.int (.ofNat (k + 1))) u := Body.lift_of_ok rfl
    refine (bind_of_ok (Body.lift_of_ok hcall)).trans ((bind_of_ok hresult).trans ?_)
    refine (bind_of_ok hset).trans ?_
    rw [Nat.add_comm j 3, hloop]

/-- **All heads.** The induction is on the count. -/
theorem metaAdd_heads (h : AtSum s n c 0) (hk : k + 1 ≤ n.toInt.toNat)
    (hh : s.machine.handler? (.table c) .add = some (.fn g))
    (hg : s.machine.heap.function g = .builtin .counterAdd)
    (hroom : s.frame.view.base + 5 ≤ s.machine.thread.stack.capacity)
    (hdepth : s.machine.thread.depth < s.machine.world.config.maxCallDepth) (fuel : Nat) :
    ∃ t, s.Grows 7 t ∧ AtSum t n c (k + 1) ∧ ∀ f j,
      loop (perform (fuel + 2)) f metaAdd (j + 6 * (k + 1)) 3 s =
        loop (perform (fuel + 2)) f metaAdd j 3 t := by
  induction k with
  | zero => exact metaAdd_turn h hk hh hg hroom hdepth fuel
  | succ k ih =>
    obtain ⟨t, ht, hsum, hheads⟩ := ih (Nat.le_of_lt hk)
    have hroom' := ht.room
    obtain ⟨u, hu, hnext, hturn⟩ := metaAdd_turn hsum hk
      (by obtain ⟨x, y, r, hmachine⟩ := ht.machine; rw [hmachine]; exact hh) (ht.heap ▸ hg)
      (by rw [ht.base]; omega) (by rw [ht.world, ht.depth]; exact hdepth) fuel
    refine ⟨u, ht.trans hu, hnext, fun f j => ?_⟩
    rw [show j + 6 * (k + 1 + 1) = j + 6 + 6 * (k + 1) by omega, hheads, hturn]

omit [HostBody F S] in
/-- At the end the body gives the sum. -/
theorem metaAdd_ends (h : AtSum s n c k) (hk : ¬ Int64.ofNat k < n) :
    ∃ t, s.Onward t ∧ ∀ (P : Perform F S) f j, loop P f metaAdd (j + 3) 3 s =
      .ok () ⟨t.frame, t.machine.withResults [.int (.ofNat k)]⟩ := by
  have hslots := h.slots
  obtain ⟨x, hregs⟩ := h
  have hsettle := metaAdd_settles_test s.machine.global? n (.ofNat k) (.table c) x
  rw [if_neg hk, ← hregs] at hsettle
  obtain ⟨t, ht, htregs, hloop⟩ := loop_settles hsettle
  have hreturn : metaAdd.code[9]? = some (.ret 2 (.fixed 1)) := rfl
  refine ⟨t, ht, fun P f j => ?_⟩
  have hret := loop_ret (s := t) hreturn (by rw [ht.slots, hslots]; decide) P f j
  rw [show j + 3 = 2 + (j + 1) by omega, hloop, hret, htregs]
  rfl

end Turn

end Bodies

/-! ## Whole runs -/

section Runs

variable [HostBody F S] {m : Machine F S} {f g : FnId} {c : TableId} {cells : Array CellId}
  {n : Int64} {w : View} {fuel : Nat} (hf : m.heap.function f = .closure Bodies.metaAdd cells)
  (hg : m.heap.function g = .builtin .counterAdd)
  (hh : m.handler? (.table c) .add = some (.fn g))
  (hglobal : m.global? (.str "counter") = some (.table c)) (hlive : w.live m = [.int n])

include hf hglobal hlive

/-- A call of the sum comes to the first head of its loop. -/
theorem invoke_adds (hdepth : m.thread.depth < m.world.config.maxCallDepth) :
    ∃ (s : Active F S) (x : Stack) (y : Option (Array TraceEvent)),
      s.machine = (entered m).restack x y ∧ Bodies.AtSum s n c 0 ∧
      s.frame.view.base = w.base ∧
      x.capacity = Stack.grown (w.base + 5) m.thread.stack.capacity ∧
      ∀ (P : Perform F S) j, invoke (runner (j + 3) P) w (.fn f) m =
        ensuring (runBody f (loop P f Bodies.metaAdd j 3) s.frame) leave s.machine := by
  have hbody : ∀ j (P : Perform F S), (m.heap.function f).body? j P f =
      some ("meta_add", Bodies.metaAdd.layout, run j P f Bodies.metaAdd) := fun j P => by
    rw [hf]
    rfl
  obtain ⟨frame, x, y, hfresh, hbase, hcapacity, hinvoke⟩ :=
    invoke_opens (body?_arity (hbody 0 fun _ => throw .exhausted)) hlive (Nat.le_refl 1) rfl nofun
  obtain ⟨s, hs, hregs, hrun⟩ := run_settles Bodies.metaAdd_bare hfresh (Nat.le_refl 1)
    (Bodies.metaAdd_settles_entry hglobal)
  have hkept := hs.capacity (by
    show frame.view.base + frame.slots ≤ x.capacity
    rw [hfresh.slots, hbase, hcapacity]
    exact Stack.le_grown ..)
  obtain ⟨a, b, hmachine⟩ := hs.machine
  obtain ⟨i, hframe⟩ := hs.frame
  rw [hmachine] at hkept
  refine ⟨s, a, b, hmachine, ⟨.nil, hregs⟩, ?_, hkept.trans hcapacity, fun P j => ?_⟩
  · rw [hframe]
    exact hbase
  · refine (hinvoke (hbody (j + 3) P) hdepth).trans (ensuring_at ?_)
    rw [runBody_eq, runBody_eq, Nat.add_comm j 3, hrun]

include hh

/-- Where there is room for the sum alone, the first call of the handler overflows. -/
theorem perform_adds_full (hpos : 0 < n)
    (hdepth : m.thread.depth + 1 = m.world.config.maxCallDepth) (hfuel : 9 ≤ fuel) : ∃ x y r,
      perform (fuel + 1) (.call w (.fn f)) m =
        .error (.fault (.stackOverflow m.world.config.maxCallDepth))
          ((m.restack x y).withChannel r) := by
  have hint : 0 < n.toInt := Int64.lt_iff_toInt_lt.1 hpos
  obtain ⟨j, rfl⟩ := Nat.exists_eq_add_of_le' hfuel
  obtain ⟨s, x, y, hmachine, hzero, hbase, hcapacity, hinvoke⟩ :=
    invoke_adds hf hglobal hlive (by omega)
  have hbelow := (Bodies.count_below (k := 0) (show 0 < n.toInt.toNat by omega)).1
  obtain ⟨t, ht, -, -, hask⟩ := Bodies.metaAdd_asks hzero hbelow
    (show s.machine.handler? (.table c) .add = some (.fn g) by rw [hmachine]; exact hh)
    (by rw [hbase, hmachine, restack_stack, hcapacity]; exact Stack.le_grown ..)
  obtain ⟨a, b, r, htmachine⟩ := ht.machine
  rw [hmachine] at htmachine
  obtain ⟨a', b', hfull⟩ := perform_full (m := t.machine) (by rw [htmachine]; exact hdepth.symm.le)
    ⟨s.frame.view.base + 5, 2⟩ g (j + 8)
  have hat : t.machine.thread.depth = m.world.config.maxCallDepth := by
    rw [htmachine]
    exact hdepth
  have hfails : invoke (runner (j + 9) (perform (j + 9))) w (.fn f) m =
      .error (.fault (.stackOverflow t.machine.thread.depth)) (leave (t.machine.restack a' b')) :=
    (hinvoke _ (j + 6)).trans (runBody_fails (hask _ f j) hfull)
  rw [hat, htmachine] at hfails
  exact ⟨_, _, _, bind_of_error hfails⟩

include hg in
/-- **A request** that calls the sum gives the number of its additions. -/
theorem perform_adds (hpos : 0 < n) (hdepth : m.thread.depth + 2 ≤ m.world.config.maxCallDepth)
    (hfuel : 6 * n.toInt.toNat + 6 ≤ fuel) : ∃ x y,
      x.capacity = Stack.grown (w.base + 7)
        (Stack.grown (w.base + 5) m.thread.stack.capacity) ∧
      perform (fuel + 1) (.call w (.fn f)) m =
        .ok () ((m.restack x y).withResults [.int n]) := by
  have hint : 0 < n.toInt := Int64.lt_iff_toInt_lt.1 hpos
  obtain ⟨k, hk⟩ := Nat.exists_eq_add_of_le' (show 1 ≤ n.toInt.toNat by omega)
  obtain ⟨fuel, rfl⟩ := Nat.exists_eq_add_of_le' (show 2 ≤ fuel by omega)
  obtain ⟨j, hj⟩ := Nat.exists_eq_add_of_le' (show 3 + 6 * (k + 1) + 3 ≤ fuel + 2 by omega)
  obtain ⟨s, x, y, hmachine, hzero, hbase, hcapacity, hinvoke⟩ :=
    invoke_adds hf hglobal hlive (by omega)
  have hcap : s.machine.thread.stack.capacity =
      Stack.grown (w.base + 5) m.thread.stack.capacity := by
    rw [hmachine]
    exact hcapacity
  obtain ⟨t, ht, hlast, hheads⟩ := Bodies.metaAdd_heads (k := k) hzero (Nat.le_of_eq hk.symm)
    (by rw [hmachine]; exact hh) (by rw [hmachine]; exact hg)
    (by rw [hbase, hcap]; exact Stack.le_grown ..) (by rw [hmachine]; exact hdepth) fuel
  have hcount : Int64.ofNat (k + 1) = n := by
    rw [← hk, ← Int64.toInt_inj, Int64.toInt_ofNat_of_lt (by have := n.toInt_lt; omega)]
    omega
  obtain ⟨u, hu, hend⟩ := Bodies.metaAdd_ends hlast (by
    rw [hcount]
    exact Int64.lt_irrefl)
  have hall : s.Grows 7 u := ht.trans (hu.grows (by rw [hlast.slots]; omega) (by
    rw [ht.base]
    exact ht.room))
  obtain ⟨a, b, r, humachine⟩ := hall.machine
  have hlastcap := hall.capacity
  rw [humachine, hmachine] at hend
  rw [humachine, hbase, hcap] at hlastcap
  refine ⟨a, b, hlastcap, ?_⟩
  have hrun := runBody_eq f (loop (perform (fuel + 2)) f Bodies.metaAdd
    (j + 3 + 6 * (k + 1)) 3) s.frame s.machine
  rw [hheads, hend, hcount] at hrun
  have hinvoked := hinvoke (perform (fuel + 2)) (j + 3 + 6 * (k + 1))
  rw [ensuring_ok hrun, show j + 3 + 6 * (k + 1) + 3 = fuel + 2 by omega] at hinvoked
  exact (bind_of_ok hinvoked).trans (drain_values _ w (fuel + 1) rfl)

end Runs

end ScriptCore
