import ScriptCore.Proofs.Recursion

/-!
# Sums over staged calls

The summing body keeps its count and its partial sum in slots 1 and 2 and stages the arguments of a
call in slots 3 to 5, so that the callee works on a window inside the frame.

1. At the head of the loop the slots hold the argument, a count and the sum of the numbers up to it
   (`Active.AtCount`).
2. From a head below the end the body asks for one call, with the partial sum, the count and 1
   (`sumFrom_asks`). The sum of these is the next partial sum, and with it the body comes to the
   next head: when the call returns (`takeSum_next`), and in the same way when the frame is entered
   again after a suspension (`sumEntry_resumed`).
3. So over a callee that returns the sum the body comes from head to head up to the last one, and
   gives the sum there (`sumFrom_heads`, `perform_sums`).
-/

namespace ScriptCore

open Machine Interpreter Routine

variable {F S : Type}

/-! ## Partial sums -/

def triangle (k : Nat) : Nat := k * (k + 1) / 2

theorem triangle_succ (k : Nat) : triangle (k + 1) = triangle k + (k + 1) := by
  have h : (k + 1) * (k + 1 + 1) = k * (k + 1) + 2 * (k + 1) := by
    rw [Nat.add_mul k 1 (k + 1 + 1), Nat.mul_add k (k + 1) 1, Nat.mul_add k k 1]
    omega
  rw [triangle, h, Nat.add_mul_div_left _ _ Nat.two_pos, triangle]

theorem triangle_mono {j k : Nat} (h : j ≤ k) : triangle j ≤ triangle k :=
  Nat.div_le_div_right (Nat.mul_le_mul h (Nat.succ_le_succ h))

theorem le_triangle (k : Nat) : k ≤ triangle k := by
  induction k with
  | zero => exact Nat.zero_le _
  | succ k ih =>
    rw [triangle_succ]
    omega

/-- The sum of the numbers up to `k`. -/
def partialSum (k : Nat) : Int64 := .ofNat (triangle k)

/-- The next partial sum is the sum of this one, the count and 1. -/
theorem partialSum_succ (k : Nat) : partialSum k + .ofNat k + 1 = partialSum (k + 1) := by
  rw [partialSum, partialSum, triangle_succ, Int64.add_assoc, Int64.ofNat_add, Int64.ofNat_add]
  rfl

/-- The sum of the numbers up to `n` is an integer of the machine. -/
def Fits (n : Int64) : Prop := triangle n.toInt.toNat < 2 ^ 63

namespace Fits

variable {n : Int64} {k : Nat}

theorem toInt_partialSum (h : Fits n) (hk : k ≤ n.toInt.toNat) :
    (partialSum k).toInt = triangle k :=
  Int64.toInt_ofNat_of_lt (Nat.lt_of_le_of_lt (triangle_mono hk) h)

theorem toInt_count (h : Fits n) (hk : k ≤ n.toInt.toNat) : (Int64.ofNat k).toInt = k :=
  Int64.toInt_ofNat_of_lt (Nat.lt_of_le_of_lt ((le_triangle k).trans (triangle_mono hk)) h)

theorem le_iff (h : Fits n) (hk : k ≤ n.toInt.toNat) :
    n ≤ Int64.ofNat k ↔ k = n.toInt.toNat := by
  rw [Int64.le_iff_toInt_le, h.toInt_count hk]
  omega

theorem next_count (h : Fits n) (hk : k < n.toInt.toNat) :
    Integer.checkedAdd (.ofNat k) 1 = some (.ofNat (k + 1)) := by
  have hcount := h.toInt_count (Nat.le_of_lt hk)
  have hnext := h.toInt_count (k := k + 1) hk
  have hone : (1 : Int64).toInt = 1 := rfl
  have hlt := (Int64.ofNat (k + 1)).toInt_lt
  rw [Integer.checkedAdd_of_range (by omega) (by omega), Int64.ofNat_add]
  rfl

/-- Both additions to the next partial sum are in range. -/
theorem next_sum (h : Fits n) (hk : k < n.toInt.toNat) :
    Integer.checkedAdd (partialSum k) (.ofNat k) = some (partialSum k + .ofNat k) ∧
      Integer.checkedAdd (partialSum k + .ofNat k) 1 = some (partialSum (k + 1)) := by
  have hsum := h.toInt_partialSum (Nat.le_of_lt hk)
  have hcount := h.toInt_count (Nat.le_of_lt hk)
  have hnext := h.toInt_partialSum (k := k + 1) hk
  have hsucc := triangle_succ k
  have hlt := (partialSum (k + 1)).toInt_lt
  have hone : (1 : Int64).toInt = 1 := rfl
  have hpart : (partialSum k + .ofNat k).toInt = (partialSum k).toInt + (Int64.ofNat k).toInt := by
    rw [Int64.toInt_add]
    exact Int.bmod_eq_of_le (by omega) (by omega)
  rw [Integer.checkedAdd_of_range (by omega) (by omega),
    Integer.checkedAdd_of_range (by omega) (by omega), partialSum_succ]
  exact ⟨rfl, rfl⟩

end Fits

/-! ## The head of the loop -/

/-- The registers after writes to some of them in a row. -/
def writeRegs? (regs : List Val) (i : Nat) : List Val → Option (List Val)
  | [] => some regs
  | v :: vs => (writeReg? regs i v).bind fun regs => writeRegs? regs (i + 1) vs

namespace Active

theorem setSlots_onward {s : Active F S} {vs regs : List Val} {i : Nat}
    (h : writeRegs? s.registers i vs = some regs) :
    ∃ t, Body.setSlots i vs s = .ok () t ∧ s.Onward t ∧ t.registers = regs := by
  induction vs generalizing s i with
  | nil =>
    cases h
    exact ⟨s, rfl, .refl s, rfl⟩
  | cons v vs ih =>
    obtain ⟨regs₁, hfirst, hrest⟩ := Option.bind_eq_some_iff.1 h
    obtain ⟨t, hset, ht, hregs⟩ := setSlot_onward v hfirst
    obtain ⟨u, hsets, hu, hall⟩ := ih (s := t) (hregs ▸ hrest)
    exact ⟨u, (bind_of_ok hset).trans hsets, ht.trans hu, hall⟩

/-- The first slots of the summing frame hold the argument, the count and the partial sum. -/
def AtCount (s : Active F S) (n : Int64) (k : Nat) : Prop :=
  s.frame.slots = 6 ∧ s.registers.take 3 = [.int n, .int (.ofNat k), .int (partialSum k)]

/-- Steps on a stack that does not grow if it has room for the frame. -/
structure Further (s t : Active F S) : Prop extends s.Along t where
  capacity : s.frame.view.base + s.frame.slots ≤ s.machine.thread.stack.capacity →
    t.machine.thread.stack.capacity = s.machine.thread.stack.capacity

section

variable {s t u : Active F S} {n : Int64} {k : Nat}

theorem Onward.further (h : s.Onward t) : s.Further t := ⟨h.along, h.capacity⟩

namespace Further

theorem refl (s : Active F S) : s.Further s := (Onward.refl s).further

theorem trans (h : s.Further t) (k : t.Further u) : s.Further u where
  toAlong := h.toAlong.trans k.toAlong
  capacity hroom := by
    have hkept := h.capacity hroom
    rw [k.capacity (by rw [hkept, h.base, h.slots]; exact hroom), hkept]

end Further

/-- The registers at a head. -/
theorem AtCount.registers_eq (h : s.AtCount n k) : ∃ a b c,
    s.registers = [.int n, .int (.ofNat k), .int (partialSum k), a, b, c] := by
  obtain ⟨hslots, hhead⟩ := h
  have hlength : s.registers.length = 6 := by rw [length_registers, hslots]
  match s.registers, hlength, hhead with
  | [_, _, _, a, b, c], _, hhead =>
    cases hhead
    exact ⟨a, b, c, rfl⟩

theorem AtCount.getSlot {i : Nat} {v : Val} (h : s.AtCount n k)
    (hv : [Val.int n, .int (.ofNat k), .int (partialSum k)][i]? = some v) :
    Body.getSlot i s = .ok v s := by
  refine getSlot_eq ?_
  have hi : i < 3 := (List.getElem?_eq_some_iff.1 hv).1
  rw [← h.2, List.getElem?_take, if_pos hi] at hv
  exact hv

theorem atCount_of_registers {a b c : Val}
    (h : s.registers = [.int n, .int (.ofNat k), .int (partialSum k), a, b, c]) :
    s.AtCount n k := by
  refine ⟨?_, by rw [h]; rfl⟩
  rw [← length_registers, h]
  rfl

end

end Active

/-! ## One turn -/

namespace Routine

variable {s : Active F S} {n : Int64} {k : Nat}

/-- On a fresh frame the body comes to its first head. -/
theorem sumEntry_fresh {m : Machine F S} {frame : Frame} (v : Val)
    (h : m.Fresh (Routine.sharedSum v).layout [.int n] frame) : ∃ t,
      sumEntry v 0 ⟨frame, m⟩ = .ok () t ∧ Active.Onward ⟨frame, m⟩ t ∧ t.AtCount n 0 := by
  have hregs : (⟨frame, m⟩ : Active F S).registers = [.int n, .nil, .nil, .nil, .nil, .nil] :=
    h.registers_eq (Nat.le_refl 1)
  have hwrite : writeRegs? (⟨frame, m⟩ : Active F S).registers 1 [.int 0, .int 0] =
      some [.int n, .int 0, .int 0, .nil, .nil, .nil] := by
    rw [hregs]
    rfl
  obtain ⟨t, hset, ht, hwritten⟩ := Active.setSlots_onward hwrite
  exact ⟨t, hset, ht, Active.atCount_of_registers hwritten⟩

/-- The body goes on from the head that its segment comes to. -/
theorem runSharedSum_from {v : Val} {t : Active F S} (h : sumEntry v s.frame.index s = .ok () t)
    (hcount : t.AtCount n k) (fuel : Nat) (P : Perform F S) :
    runSharedSum fuel P v s = sumFrom P v n fuel t := by
  have hframe : (Body.frame : Body F S Frame) s = .ok s.frame s := rfl
  refine (bind_of_ok hframe).trans ((bind_of_ok h).trans ?_)
  exact (bind_of_ok (hcount.getSlot (i := 0) rfl)).trans rfl

theorem sumCount_eq (v : Val) (h : s.AtCount n k) : sumCount v s = .ok (.ofNat k) s :=
  (bind_of_ok (h.getSlot (i := 1) rfl)).trans rfl

/-- At the last head the body gives the partial sum. -/
theorem sumFrom_ends (v : Val) (h : s.AtCount n k) (hk : n ≤ .ofNat k) (P : Perform F S)
    (fuel : Nat) : sumFrom P v n (fuel + 1) s =
      .ok () ⟨s.frame, s.machine.withResults [.int (partialSum k)]⟩ := by
  rw [sumFrom_succ, bind_of_ok (sumCount_eq v h)]
  unfold sumTurn
  simp only [bind_assoc]
  rw [bind_of_ok (h.getSlot rfl), if_pos hk]
  rfl

/-- At any other head the body calls its callee on the window of slots 3 to 5. -/
theorem sumFrom_asks (v : Val) (h : s.AtCount n k) (hk : ¬ n ≤ .ofNat k) :
    let w : View := ⟨s.frame.view.base + 3, 3⟩
    ∃ t : Active F S, s.Onward t ∧ t.frame.index = 1 ∧ t.AtCount n k ∧
      w.live t.machine = [.int (partialSum k), .int (.ofNat k), .int 1] ∧
      ∀ (P : Perform F S) fuel, sumFrom P v n (fuel + 1) s = (do
        Body.lift (P (.call w v))
        takeSum (.ofNat k)
        sumFrom P v n fuel : Body F S Unit) t := by
  intro w
  -- The staging writes slots 3 to 5 only, so the next head can still be read from the first three.
  obtain ⟨a, b, c, hregs⟩ := h.registers_eq
  let staged : List Val := [.int (partialSum k), .int (.ofNat k), .int 1]
  have hwrite : writeRegs? s.registers 3 staged =
      some ([.int n, .int (.ofNat k), .int (partialSum k)] ++ staged) := by
    rw [hregs]
    rfl
  obtain ⟨s₁, hstage, h₁, hregs₁⟩ := Active.setSlots_onward hwrite
  let s₂ : Active F S := ⟨{ s₁.frame with index := 1 }, s₁.machine⟩
  have hindex : (Body.setIndex 1 : Body F S Unit) s₁ = .ok () s₂ := rfl
  have h₂ : s₁.Onward s₂ := ⟨⟨_, rfl⟩, ⟨_, _, rfl⟩, fun _ => rfl⟩
  have hframe : (Body.frame : Body F S Frame) s₂ = .ok s₂.frame s₂ := rfl
  have hslots : s₂.frame.slots = 6 := h₁.slots.trans h.1
  obtain ⟨t, hwindow, h₃, hkept, hlive⟩ :=
    Active.window_onward (s := s₂) (show 3 + 3 ≤ s₂.frame.slots by omega)
  have hregs₃ : t.registers = [.int n, .int (.ofNat k), .int (partialSum k)] ++ staged :=
    hkept.trans hregs₁
  obtain ⟨i, hi⟩ := h₁.frame
  have hbase : s₂.frame.view.base = s.frame.view.base := by
    show s₁.frame.view.base = _
    rw [hi]
  have hindexed : t.frame.index = 1 := by rw [(Body.lift_ok hwindow).2]
  rw [hbase] at hwindow hlive
  rw [← hkept, hregs₃] at hlive
  refine ⟨t, (h₁.trans h₂).trans h₃, hindexed, Active.atCount_of_registers hregs₃, hlive,
    fun P fuel => ?_⟩
  · rw [sumFrom_succ, bind_of_ok (sumCount_eq v h)]
    unfold sumTurn
    simp only [bind_assoc]
    rw [bind_of_ok (h.getSlot (i := 2) rfl), if_neg hk]
    simp only [bind_assoc]
    rw [bind_of_ok hstage, bind_of_ok hindex, bind_of_ok hframe, bind_of_ok hwindow]
    rfl

/-- **The next head.** With the next partial sum as the outcome of its call, the body comes to the
head with the next count. -/
theorem takeSum_next (hn : Fits n) (h : s.AtCount n k) (hk : k < n.toInt.toNat)
    (hsum : s.machine.thread.results = .ofValues [.int (partialSum (k + 1))]) :
    ∃ t, takeSum (.ofNat k) s = .ok () t ∧ s.Onward t ∧ t.AtCount n (k + 1) := by
  obtain ⟨a, b, c, hregs⟩ := h.registers_eq
  have hresult : Body.lift (result 0) s = .ok (.int (partialSum (k + 1))) s := by
    refine Body.lift_of_ok ?_
    rw [result_ok (by rw [hsum]; rfl), hsum]
    rfl
  have hwrite : writeReg? s.registers 2 (.int (partialSum (k + 1))) = some
      [.int n, .int (.ofNat k), .int (partialSum (k + 1)), a, b, c] := by
    rw [hregs]
    rfl
  obtain ⟨s₁, hset, h₁, hregs₁⟩ := Active.setSlot_onward _ hwrite
  have hcount : Body.lift (orOverflow (Integer.checkedAdd (.ofNat k) 1)) s₁ =
      .ok (.ofNat (k + 1)) s₁ := by
    rw [hn.next_count hk]
    rfl
  have hwrite₁ : writeReg? s₁.registers 1 (.int (.ofNat (k + 1))) = some
      [.int n, .int (.ofNat (k + 1)), .int (partialSum (k + 1)), a, b, c] := by
    rw [hregs₁]
    rfl
  obtain ⟨t, hset₁, h₂, hregs₂⟩ := Active.setSlot_onward _ hwrite₁
  refine ⟨t, ?_, h₁.trans h₂, Active.atCount_of_registers hregs₂⟩
  unfold takeSum
  rw [bind_of_ok hresult, bind_of_ok hset, bind_of_ok hcount]
  exact hset₁

/-- **Entered again.** A frame that was left at a head takes the outcome of its call as a frame that
was not left does. -/
theorem sumEntry_resumed (v : Val) (h : s.AtCount n k) {x : Val}
    (hresult : Body.lift (result 0) s = .ok x s) : sumEntry v 1 s = takeSum (.ofNat k) s := by
  have hcount : Body.lift (integer (.int (.ofNat k)) (Routine.sharedSum v).name) s =
      .ok (.ofNat k) s := rfl
  have htake : takeSum (.ofNat k) s = (do
      Body.setSlot 2 x
      Body.setSlot 1 (.int (← Body.lift (orOverflow (Integer.checkedAdd (.ofNat k) 1)))) :
        Body F S Unit) s := bind_of_ok hresult
  rw [htake]
  exact (bind_of_ok hresult).trans ((bind_of_ok (h.getSlot (i := 1) rfl)).trans (bind_of_ok hcount))

/-! ## Over a sum of three -/

section Add3

variable {m : Machine F S} {w : View}

/-- The staged arguments have the next partial sum as their sum. -/
theorem add3_next (hn : Fits n) (hk : k < n.toInt.toNat)
    (hlive : w.live m = [.int (partialSum k), .int (.ofNat k), .int 1]) :
    add3 w m = .ok () (m.withResults [.int (partialSum (k + 1))]) := by
  have hvalue : ∀ {i v}, [Val.int (partialSum k), .int (.ofNat k), .int 1][i]? = some v →
      valueAt w i m = .ok v m := fun hv => valueAt_live (by rw [hlive]; exact hv)
  obtain ⟨hfirst, hlast⟩ := hn.next_sum hk
  have hinteger : ∀ a, (integer (.int a) "add3" : M F S Int64) m = .ok a m := fun _ => rfl
  unfold add3
  rw [bind_of_ok (hvalue (i := 0) rfl), bind_of_ok (hinteger _), bind_of_ok (hvalue (i := 1) rfl),
    bind_of_ok (hinteger _), hfirst]
  refine (bind_of_ok (rfl : _ = EStateM.Result.ok _ m)).trans ?_
  rw [bind_of_ok (hvalue (i := 2) rfl), bind_of_ok (hinteger _), hlast]
  rfl

variable [HostBody F S] {f g : FnId}

/-- **One turn.** Over a sum of three the body comes from one head to the next. -/
theorem sumFrom_turn (hn : Fits n) (h : s.AtCount n k) (hk : k < n.toInt.toNat)
    (hg : s.machine.heap.function g = .builtin .add3)
    (hdepth : s.machine.thread.depth < s.machine.world.config.maxCallDepth) (fuel : Nat) :
    ∃ t, s.Further t ∧ t.AtCount n (k + 1) ∧ ∀ j,
      sumFrom (perform (fuel + 2)) (.fn g) n (j + 1) s =
        sumFrom (perform (fuel + 2)) (.fn g) n j t := by
  have hbelow : ¬ n ≤ .ofNat k := by
    rw [hn.le_iff (Nat.le_of_lt hk)]
    exact Nat.ne_of_lt hk
  obtain ⟨t, ht, -, hcount, hlive, hask⟩ := sumFrom_asks (.fn g) h hbelow
  have hg' : t.machine.heap.function g = .builtin .add3 := ht.heap ▸ hg
  obtain ⟨y, hcall⟩ := perform_builtin hg' (.inr rfl)
    (by rw [ht.world, ht.along.depth]; exact hdepth)
    (fun P y => add3_next (m := entered (t.machine.restack t.machine.thread.stack y)) hn hk hlive)
    fuel
  let u : Active F S := ⟨t.frame,
    (t.machine.restack t.machine.thread.stack y).withResults [.int (partialSum (k + 1))]⟩
  have hu : t.Further u := ⟨⟨⟨_, rfl⟩, ⟨_, _, _, rfl⟩⟩, fun _ => rfl⟩
  obtain ⟨v, htake, hv, hnext⟩ := takeSum_next (s := u) hn hcount hk rfl
  refine ⟨v, (ht.further.trans hu).trans hv.further, hnext, fun j => (hask _ j).trans ?_⟩
  exact (bind_of_ok (Body.lift_of_ok hcall)).trans (bind_of_ok htake)

/-- **All heads.** The induction is on the count. -/
theorem sumFrom_heads (hn : Fits n) (h : s.AtCount n 0) (hk : k ≤ n.toInt.toNat)
    (hg : s.machine.heap.function g = .builtin .add3)
    (hdepth : s.machine.thread.depth < s.machine.world.config.maxCallDepth) (fuel : Nat) :
    ∃ t, s.Further t ∧ t.AtCount n k ∧ ∀ j,
      sumFrom (perform (fuel + 2)) (.fn g) n (j + k) s =
        sumFrom (perform (fuel + 2)) (.fn g) n j t := by
  induction k with
  | zero => exact ⟨s, .refl s, h, fun _ => rfl⟩
  | succ k ih =>
    obtain ⟨t, ht, hcount, hheads⟩ := ih (Nat.le_of_lt hk)
    obtain ⟨u, hu, hnext, hturn⟩ := sumFrom_turn hn hcount hk (ht.heap ▸ hg)
      (by rw [ht.world, ht.depth]; exact hdepth) fuel
    refine ⟨u, ht.trans hu, hnext, fun j => ?_⟩
    rw [Nat.add_comm k 1, ← Nat.add_assoc, hheads, hturn]

end Add3

end Routine

/-! ## Whole runs -/

section Runs

variable [HostBody F S] {m : Machine F S} {f g : FnId} {n : Int64} {w : View} {fuel k : Nat}

/-- A call of the sum comes to the first head of its loop. -/
theorem invoke_sums {v : Val} (hf : m.heap.function f = .routine (.sharedSum v))
    (hlive : w.live m = [.int n]) (hdepth : m.thread.depth < m.world.config.maxCallDepth) :
    ∃ (s : Active F S) (x : Stack) (y : Option (Array TraceEvent)),
      s.machine = (entered m).restack x y ∧ s.AtCount n 0 ∧
      s.frame.view.base + s.frame.slots ≤ x.capacity ∧
      x.capacity = Stack.grown (w.base + 6) m.thread.stack.capacity ∧
      ∀ (P : Perform F S) j, invoke (runner j P) w (.fn f) m =
        ensuring (runBody f (sumFrom P v n j) s.frame) leave s.machine := by
  have hbody : ∀ j (P : Perform F S), (m.heap.function f).body? j P f =
      some ("shared_sum", (Routine.sharedSum v).layout, runSharedSum j P v) := fun j P => by
    rw [hf]
    rfl
  obtain ⟨frame, x, y, hfresh, hbase, hcapacity, hinvoke⟩ :=
    invoke_opens (body?_arity (hbody 0 fun _ => throw .exhausted)) hlive (Nat.le_refl 1) rfl nofun
  have hroom : frame.view.base + frame.slots ≤ x.capacity := by
    rw [hfresh.slots, hbase, hcapacity]
    exact Stack.le_grown ..
  obtain ⟨⟨g, u⟩, hentry, hs, hzero⟩ := sumEntry_fresh v hfresh
  have hkept := hs.capacity hroom
  obtain ⟨i, rfl : g = _⟩ := hs.frame
  obtain ⟨a, b, rfl : u = _⟩ := hs.machine
  rw [← hfresh.index] at hentry
  refine ⟨_, a, b, rfl, hzero, hroom.trans hkept.ge, hkept.trans hcapacity, fun P j => ?_⟩
  refine (hinvoke (hbody j P) hdepth).trans (ensuring_at ?_)
  rw [runBody_eq, runBody_eq, runSharedSum_from hentry hzero]

/-- **A call.** A call of the sum comes to each of its heads. Up to there it has changed nothing but
the result channel, the trace and the stack, on which it has taken the room of its frame. -/
theorem invoke_heads (hf : m.heap.function f = .routine (.sharedSum (.fn g)))
    (hg : m.heap.function g = .builtin .add3) (hn : Fits n) (hlive : w.live m = [.int n])
    (hdepth : m.thread.depth + 2 ≤ m.world.config.maxCallDepth) (hk : k ≤ n.toInt.toNat)
    (hfuel : 2 ≤ fuel) (hle : k ≤ fuel) : ∃ s : Active F S, s.AtCount n k ∧
      (∃ x y r, s.machine = ((entered m).restack x y).withChannel r ∧
        x.capacity = Stack.grown (w.base + 6) m.thread.stack.capacity) ∧
      invoke (runner fuel (perform fuel)) w (.fn f) m =
        ensuring (runBody f (sumFrom (perform fuel) (.fn g) n (fuel - k)) s.frame) leave
          s.machine := by
  obtain ⟨s, x, y, hmachine, hzero, hroom, hcapacity, hinvoke⟩ :=
    invoke_sums hf hlive (by omega)
  obtain ⟨fuel, rfl⟩ := Nat.exists_eq_add_of_le' hfuel
  obtain ⟨t, ht, hcount, hheads⟩ := sumFrom_heads hn hzero hk (by rw [hmachine]; exact hg)
    (by rw [hmachine]; exact hdepth) fuel
  have hkept := ht.capacity (by rw [hmachine]; exact hroom)
  obtain ⟨x', y', r, htmachine⟩ := ht.machine
  rw [htmachine, hmachine] at hkept
  refine ⟨t, hcount, ⟨x', y', r, ?_, hkept.trans hcapacity⟩, ?_⟩
  · rw [htmachine, hmachine]
    rfl
  · refine (hinvoke _ _).trans (ensuring_at ?_)
    rw [runBody_eq, runBody_eq, ← hheads, Nat.sub_add_cancel hle]

/-- **A request.** A request that calls the sum gives the last partial sum. -/
theorem perform_sums (hf : m.heap.function f = .routine (.sharedSum (.fn g)))
    (hg : m.heap.function g = .builtin .add3) (hn : Fits n) (hlive : w.live m = [.int n])
    (hdepth : m.thread.depth + 2 ≤ m.world.config.maxCallDepth)
    (hfuel : n.toInt.toNat + 2 ≤ fuel) : ∃ x y,
      x.capacity = Stack.grown (w.base + 6) m.thread.stack.capacity ∧
      perform (fuel + 1) (.call w (.fn f)) m =
        .ok () ((m.restack x y).withResults [.int (partialSum n.toInt.toNat)]) := by
  obtain ⟨s, hcount, ⟨x, y, r, hmachine, hcapacity⟩, hinvoke⟩ :=
    invoke_heads hf hg hn hlive hdepth (Nat.le_refl _) (show 2 ≤ fuel by omega) (by omega)
  refine ⟨x, y, hcapacity, ?_⟩
  obtain ⟨j, hj⟩ := Nat.exists_eq_add_of_le' (show 1 ≤ fuel - n.toInt.toNat by omega)
  obtain ⟨i, rfl⟩ := Nat.exists_eq_add_of_le' (show 1 ≤ fuel by omega)
  have hend := sumFrom_ends (.fn g) hcount ((hn.le_iff (Nat.le_refl _)).2 rfl) (perform (i + 1)) j
  have hrun := runBody_eq f (sumFrom (perform (i + 1)) (.fn g) n (j + 1)) s.frame s.machine
  rw [hend, hmachine] at hrun
  rw [hj, hmachine, ensuring_ok hrun] at hinvoke
  exact (bind_of_ok hinvoke).trans (drain_values _ w i rfl)

/-- Where there is room for the sum alone, the first call of its callee overflows. -/
theorem perform_sums_full (hf : m.heap.function f = .routine (.sharedSum (.fn g)))
    (hpos : 0 < n) (hlive : w.live m = [.int n])
    (hdepth : m.thread.depth + 1 = m.world.config.maxCallDepth) (hfuel : 1 ≤ fuel) : ∃ x y,
      perform (fuel + 1) (.call w (.fn f)) m =
        .error (.fault (.stackOverflow m.world.config.maxCallDepth)) (m.restack x y) := by
  obtain ⟨j, rfl⟩ := Nat.exists_eq_add_of_le' hfuel
  obtain ⟨s, x, y, hmachine, hzero, -, -, hinvoke⟩ := invoke_sums hf hlive (by omega)
  obtain ⟨t, ht, -, -, -, hask⟩ := sumFrom_asks (.fn g) hzero (Int64.not_le.2 hpos)
  obtain ⟨a, b, htmachine⟩ := ht.machine
  rw [hmachine] at htmachine
  have hat : t.machine.thread.depth = m.world.config.maxCallDepth := by
    rw [htmachine]
    exact hdepth
  obtain ⟨a', b', hfull⟩ :=
    perform_full (m := t.machine) (by rw [hat, htmachine]; exact Nat.le_refl _)
    ⟨s.frame.view.base + 3, 3⟩ g j
  have hfails : invoke (runner (j + 1) (perform (j + 1))) w (.fn f) m =
      .error (.fault (.stackOverflow t.machine.thread.depth)) (leave (t.machine.restack a' b')) :=
    (hinvoke _ (j + 1)).trans (runBody_fails (hask _ j) hfull)
  rw [hat, htmachine] at hfails
  exact ⟨_, _, bind_of_error hfails⟩

end Runs

end ScriptCore
