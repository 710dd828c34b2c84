import ScriptCore.Proofs.Capacity
import ScriptCore.Proofs.Division
import ScriptCore.Proofs.InvalidReentries
import ScriptCore.Proofs.Replays
import ScriptCore.Proofs.StraightLine
import ScriptCore.Scenario

/-!
# Recursion by plain calls

Three bodies count down by plain calls of themselves: a hand-written one that has its arguments in
registers, one that has them packed, and a compiled one that stages them in its own frame.

1. Each of them gives 100 at 0. Above 0 it calls itself once with the count below, and gives the
   successor of the outcome (`Descends`).
2. So by induction on the count a call of it gives `100 + n`, or the stack overflow of the call for
   which there is no room (`perform_counts`); what the calls have done to the depth is undone on
   both ways. The stack has grown by the slots of the frames and the arguments staged for them
   (`descent`).
3. From outside the outcome is the same for the three (`recursions_agree`).
-/

namespace ScriptCore

open Machine Interpreter

variable {F S : Type}

/-- A function that counts down by plain calls of what it is given first. -/
inductive Callable.Recurses : Callable F → Prop
  | fixed : Recurses (.routine (.recurse false))
  | packed : Recurses (.routine (.recurse true))
  | compiled (cells : Array CellId) : Recurses (.closure Bodies.recurse cells)

/-! ## One activation -/

/-- The slots of a frame of a recursive function, and how far above it the next one starts. -/
def Callable.spans : Callable F → Nat × Nat
  | .routine (.recurse packed) => if packed then (0, 0) else (2, 2)
  | _ => (5, 3)

/-- What a countdown with frames of `slots` slots, each `stride` above the one before, provides from
a base on: its frame, then the arguments of the next call, then what that call does. -/
def descent (slots stride : Nat) : Nat → Nat → List Nat
  | 0, base => [base + slots]
  | k + 1, base =>
    (base + slots) :: (base + stride + 2) :: descent slots stride k (base + stride)

/-- How a body counts down. At 0 it gives 100. Above 0 it calls `f` on the count below, and gives
the successor of the outcome. It grows the stack by the arguments of the call only. -/
structure Descends (P : Perform F S) (f : FnId) (layout : Layout) (stride : Nat)
    (body : Body F S Unit) : Prop where
  zero : ∀ (m : Machine F S) frame, m.Fresh layout [.fn f, .int 0] frame →
    frame.view.base + layout.slots ≤ m.thread.stack.capacity → ∃ g x y,
    x.capacity = m.thread.stack.capacity ∧
      body ⟨frame, m⟩ = .ok () ⟨g, (m.restack x y).withResults [.int 100]⟩
  pos : ∀ (m : Machine F S) frame n, 0 < n → m.Fresh layout [.fn f, .int n] frame →
    frame.view.base + layout.slots ≤ m.thread.stack.capacity →
    ∃ (g : Frame) (x : Stack) (y : Option (Array TraceEvent)) (rest : Body F S Unit),
      let w : View := ⟨frame.view.base + stride, 2⟩
      x.capacity = Stack.grown (frame.view.base + stride + 2) m.thread.stack.capacity ∧
      w.live (m.restack x y) = [.fn f, .int (n - 1)] ∧
      body ⟨frame, m⟩ =
        (do Body.lift (P (.call w (.fn f))); rest : Body F S Unit) ⟨g, m.restack x y⟩ ∧
      ∀ (t : Machine F S) v, t.thread.results = .ofValues [.int v] →
        x.capacity ≤ t.thread.stack.capacity → ∃ h x y,
        t.thread.stack.capacity = x.capacity ∧
          rest ⟨g, t⟩ = .ok () ⟨h, (t.restack x y).withResults [.int (v + 1)]⟩

section Routines

namespace Routine

variable {m : Machine F S} {frame : Frame} {f : FnId} {n : Int64}

/-- The hand-written bodies find their arguments. -/
theorem recurseArgs_fresh {packed : Bool} {v w : Val}
    (h : m.Fresh (Routine.recurse packed).layout [v, w] frame) :
    recurseArgs packed frame ⟨frame, m⟩ = .ok (v, w) ⟨frame, m⟩ := by
  cases packed with
  | true =>
    show EStateM.Result.ok (frame.varargs.getD 0 .nil, frame.varargs.getD 1 .nil) _ = _
    rw [h.varargs]
    rfl
  | false =>
    show EStateM.Result.ok (frame.view.get _ _ 0, frame.view.get _ _ 1) _ = _
    rw [h.params 0 (by decide), h.params 1 (by decide)]
    rfl

theorem predecessor_pos (h : 0 < n) (m : Machine F S) :
    (predecessor n : M F S Val) m = .ok (.int (n - 1)) m := by
  have hpos : 0 < n.toInt := Int64.lt_iff_toInt_lt.1 h
  have hbound := n.toInt_lt
  have hone : (1 : Int64).toInt = 1 := rfl
  rw [predecessor, Integer.checkedSub_of_range (by omega) (by omega)]
  rfl

theorem successor_int (n : Int64) (m : Machine F S) :
    (successor (.int n) : M F S Val) m = .ok (.int (n + 1)) m := rfl

/-- What the counting bodies do with the outcome of their call. -/
theorem recurseEnd_ok {t : Machine F S} {v : Int64} (h : t.thread.results = .ofValues [.int v])
    (g : Frame) : recurseEnd ⟨g, t⟩ = .ok () ⟨g, t.withResults [.int (v + 1)]⟩ := by
  have hresult : (result 0 : M F S Val) t = .ok (.int v) t := by
    rw [result_ok (by rw [h]; rfl), h]
    rfl
  exact Body.lift_of_ok ((bind_of_ok hresult).trans (bind_of_ok (successor_int v t)))

theorem recurseTurn_zero {packed : Bool}
    (h : m.Fresh (Routine.recurse packed).layout [.fn f, .int 0] frame) :
    recurseTurn packed frame ⟨frame, m⟩ = .ok .done ⟨frame, m.withResults [.int 100]⟩ :=
  bind_of_ok (recurseArgs_fresh h)

/-- The arguments of the call are staged above the frame. -/
theorem recurseTurn_pos {packed : Bool} (hn : 0 < n)
    (h : m.Fresh (Routine.recurse packed).layout [.fn f, .int n] frame)
    (hroom : frame.view.base + frame.slots ≤ m.thread.stack.capacity) : ∃ x y,
    let w : View := ⟨frame.view.base + frame.slots, 2⟩
    x.capacity = Stack.grown (frame.view.base + frame.slots + 2) m.thread.stack.capacity ∧
      w.live (m.restack x y) = [.fn f, .int (n - 1)] ∧
      recurseTurn packed frame ⟨frame, m⟩ =
        .ok (.ask w (.fn f)) ⟨{ frame with index := 1 }, m.restack x y⟩ := by
  have hzero : n ≠ 0 := (Int64.ne_of_lt hn).symm
  have hpred : Body.lift (predecessor n) ⟨frame, m⟩ = .ok (.int (n - 1)) ⟨frame, m⟩ :=
    Body.lift_of_ok (predecessor_pos hn m)
  have hint : Body.lift (integer (.int n) (Routine.recurse packed).name) ⟨frame, m⟩ =
      .ok n ⟨frame, m⟩ := rfl
  let indexed : Active F S := ⟨{ frame with index := 1 }, m⟩
  let args : List Val := [.fn f, .int (n - 1)]
  obtain ⟨x, hx⟩ := onStack_ok ((frame.view.child frame.slots).setTop · 0) m
  let stack := (frame.view.child frame.slots).growTo m.thread.stack 0
  have hstack : stack = m.thread.stack := Stack.growTo_of_le hroom
  let w : View := ⟨frame.view.base + frame.slots, 0⟩
  obtain ⟨y, hy⟩ := onStack_ok (w.load · args) (m.restack stack x)
  have hscratch : Body.scratch indexed = .ok w ⟨indexed.frame, m.restack stack x⟩ :=
    Body.lift_of_ok (s := indexed) (x := Body.scratchOf indexed.frame) hx
  have hlive : (⟨w.base, args.length⟩ : View).live (m.restack (w.load stack args).2 y) = args :=
    View.live_load w (m.restack stack x) y
  have hindex : (Body.setIndex 1 : Body F S Unit) ⟨frame, m⟩ = .ok () indexed := rfl
  have hload : Body.lift (load w args) ⟨indexed.frame, m.restack stack x⟩ =
      .ok ⟨w.base, args.length⟩ ⟨indexed.frame, m.restack (w.load stack args).2 y⟩ :=
    Body.lift_of_ok hy
  refine ⟨_, y, (w.capacity_load stack args).trans (by rw [hstack]; rfl), hlive, ?_⟩
  unfold recurseTurn
  rw [bind_of_ok (recurseArgs_fresh h)]
  dsimp only
  rw [bind_of_ok hint, if_neg hzero, bind_of_ok hpred]
  exact (bind_of_ok hindex).trans ((bind_of_ok hscratch).trans (bind_of_ok hload))

/-- **The hand-written bodies.** -/
theorem recurse_descends (P : Perform F S) (f : FnId) (packed : Bool) :
    Descends P f (Routine.recurse packed).layout (Routine.recurse packed).layout.slots
      (runRecurse P packed) := by
  have hentry : ∀ {m : Machine F S} {frame : Frame}, frame.index = 0 →
      runRecurse P packed ⟨frame, m⟩ =
        (recurseTurn packed frame >>= callOnce P recurseEnd) ⟨frame, m⟩ := by
    intro m frame h
    rw [runRecurse_eq]
    show (if frame.index = 0 then _ else _ : Body F S Unit) ⟨frame, m⟩ = _
    rw [if_pos h]
  refine ⟨fun m frame h _ => ?_, fun m frame n hn h hroom => ?_⟩
  · exact ⟨frame, m.thread.stack, m.trace, rfl,
      (hentry h.index).trans (bind_of_ok (recurseTurn_zero h))⟩
  · rw [← h.slots] at hroom ⊢
    obtain ⟨x, y, hcapacity, hlive, hturn⟩ := recurseTurn_pos hn h hroom
    exact ⟨_, x, y, recurseEnd, hcapacity, hlive, (hentry h.index).trans (bind_of_ok hturn),
      fun t v ht _ => ⟨_, t.thread.stack, t.trace, rfl, recurseEnd_ok ht _⟩⟩

end Routine

end Routines

/-! ## The compiled body -/

namespace Bodies

variable (globals : Val → Option Val) (f : FnId)

theorem recurse_settles_test (n : Int64) :
    recurse.settle? globals 2 0 [.fn f, .int n, .nil, .nil, .nil] =
      some (2, [.fn f, .int n, .bool (decide (n = 0)), .nil, .nil]) :=
  (Proto.settle?_succ (show recurse.code[0]? = some (.const 2 0) from rfl) rfl 1).trans
    (Proto.settle?_succ (show recurse.code[1]? = some (.binary .eq 2 1 2) from rfl)
      (Op.settle?_binary rfl rfl (BinOp.apply_eq n 0) (by show 2 < 5; omega) _) 0)

theorem recurse_settles_zero : recurse.settle? globals 4 0 [.fn f, .int 0, .nil, .nil, .nil] =
    some (4, [.fn f, .int 0, .int 100, .nil, .nil]) :=
  Proto.settle?_trans (recurse_settles_test globals f 0) 2

theorem recurse_settles_pos {n : Int64} (h : n ≠ 0) :
    recurse.settle? globals 7 0 [.fn f, .int n, .nil, .nil, .nil] =
      some (9, [.fn f, .int n, .fn f, .fn f, .int (n - 1)]) := by
  have htest := recurse_settles_test globals f n
  rw [decide_eq_false h] at htest
  exact Proto.settle?_trans htest 5

theorem recurse_settles_end (a b d e : Val) (v : Int64) :
    recurse.settle? globals 2 10 [a, b, .int v, d, e] =
      some (12, [a, b, .int (v + 1), .int 1, e]) := rfl

theorem recurse_bare (r : Nat) : ¬ recurse.isReified r := Bool.false_ne_true

variable {F S : Type} {s : Active F S}

/-- The last part of the body takes the outcome of the call. -/
theorem recurse_ends {v : Int64} (hslots : s.frame.slots = 5)
    (h : s.machine.thread.results = .ofValues [.int v])
    (hroom : s.frame.view.base + 5 ≤ s.machine.thread.stack.capacity) (P : Perform F S) (g : FnId)
    (fuel : Nat) : ∃ frame x y, s.machine.thread.stack.capacity = x.capacity ∧
      (do complete recurse 9; loop P g recurse (fuel + 3) 10 : Body F S Unit) s =
        .ok () ⟨frame, (s.machine.restack x y).withResults [.int (v + 1)]⟩ := by
  have hcall : recurse.code[9]? = some (.call 2 (.fixed 2) (.fixed 1)) := rfl
  have hreturn : recurse.code[12]? = some (.ret 2 (.fixed 1)) := rfl
  obtain ⟨t, hcomplete, ht, hregs⟩ := complete_call hcall h (by rw [hslots]; decide)
  obtain ⟨a, b, c, d, e, hall⟩ : ∃ a b c d e, s.registers = [a, b, c, d, e] := by
    have hlength : s.registers.length = 5 := by rw [Active.length_registers, hslots]
    match s.registers, hlength with
    | [a, b, c, d, e], _ => exact ⟨a, b, c, d, e, rfl⟩
  rw [hall] at hregs
  have hsettle := recurse_settles_end t.machine.global? a b d e v
  rw [show [a, b, .int v, d, e] = t.registers from hregs.symm] at hsettle
  obtain ⟨u, hu, huregs, hloop⟩ := loop_settles hsettle
  have honward := ht.trans hu
  have hret := loop_ret (s := u) hreturn (by rw [honward.slots, hslots]; decide) P g fuel
  have hcapacity := honward.capacity (by rw [hslots]; exact hroom)
  obtain ⟨x, y, hmachine⟩ := honward.machine
  rw [hmachine] at hcapacity
  rw [huregs, hmachine] at hret
  refine ⟨u.frame, x, y, hcapacity.symm, (bind_of_ok hcomplete).trans ?_⟩
  rw [show fuel + 3 = 2 + (fuel + 1) by omega, hloop]
  exact hret

/-- **The compiled body.** It stages the arguments of the call in its own frame. -/
theorem recurse_descends (P : Perform F S) (f g : FnId) {fuel : Nat} (hfuel : 11 ≤ fuel) :
    Descends P f recurse.layout 3 (Interpreter.run fuel P g recurse) := by
  obtain ⟨k, rfl⟩ := Nat.exists_eq_add_of_le hfuel
  refine ⟨fun m frame h hroom => ?_, fun m frame n hn h hroom => ?_⟩
  · obtain ⟨s, hs, hregs, hrun⟩ := run_settles recurse_bare h (Nat.le_refl 2)
      (recurse_settles_zero m.global? f)
    have hcapacity := hs.capacity (by rw [h.slots]; exact hroom)
    obtain ⟨x, y, hmachine⟩ := hs.machine
    have hslots : s.frame.slots = 5 := hs.slots.trans h.slots
    have hreturn : recurse.code[4]? = some (.ret 2 (.fixed 1)) := rfl
    have hret := loop_ret hreturn (by rw [hslots]; decide) P g (6 + k)
    rw [hmachine] at hcapacity
    rw [hregs, hmachine] at hret
    refine ⟨s.frame, x, y, hcapacity, ?_⟩
    rw [show 11 + k = 4 + (6 + k + 1) by omega, hrun]
    exact hret
  · have hzero : n ≠ 0 := (Int64.ne_of_lt hn).symm
    obtain ⟨s, hs, hregs, hrun⟩ := run_settles recurse_bare h (Nat.le_refl 2)
      (recurse_settles_pos m.global? f hzero)
    have hslots : s.frame.slots = 5 := hs.slots.trans h.slots
    have hcall : recurse.code[9]? = some (.call 2 (.fixed 2) (.fixed 1)) := rfl
    have htarget : s.registers[(2 : Reg).toNat]? = some (.fn f) := by
      rw [hregs]
      rfl
    obtain ⟨t, ht, hlive, hloop⟩ := loop_call_fixed hcall (by decide) htarget
      (by rw [hslots]; decide)
    have honward := hs.trans ht
    have hbase : s.frame.view.base = frame.view.base ∧ t.frame.view.base = frame.view.base := by
      obtain ⟨_, hframe⟩ := hs.frame
      obtain ⟨_, hframe'⟩ := honward.frame
      rw [hframe, hframe']
      exact ⟨rfl, rfl⟩
    have hroom' : frame.view.base + 5 ≤ m.thread.stack.capacity := hroom
    have hcapacity := honward.capacity (by rw [h.slots]; exact hroom)
    obtain ⟨x, y, hmachine⟩ := honward.machine
    rw [hregs, hmachine, hbase.1] at hlive
    rw [hmachine] at hcapacity
    refine ⟨t.frame, x, y, (do complete recurse 9; loop P g recurse (k + 3) 10), ?_, hlive, ?_,
      fun u v hu hle => ?_⟩
    · exact hcapacity.trans (Stack.grown_of_le hroom').symm
    · rw [show 11 + k = 7 + (k + 3 + 1) by omega, hrun, hloop, hbase.1,
        show m.restack x y = t.machine from hmachine.symm]
      rfl
    · exact recurse_ends (s := ⟨t.frame, u⟩) (ht.slots.trans hslots) hu
        (by rw [hbase.2]; exact hroom'.trans (hcapacity ▸ hle)) P g k

end Bodies

/-! ## Whole runs -/

/-- How a countdown from `n` ends: with `100 + n` where there is room for `n + 1` calls, and then
the stack has a given capacity, else with a stack overflow. Only the stack, the trace and the
result channel are changed. -/
inductive CountedDown (m : Machine F S) (n : Int64) (capacity : Nat) :
    EStateM.Result Unwind (Machine F S) Unit → Prop
  | returned (hroom : m.thread.depth + n.toInt + 1 ≤ m.world.config.maxCallDepth) (x : Stack)
    (y : Option (Array TraceEvent)) (hcapacity : x.capacity = capacity) :
    CountedDown m n capacity (.ok () ((m.restack x y).withResults [.int (100 + n)]))
  | overflowed (hfull : m.world.config.maxCallDepth < m.thread.depth + n.toInt + 1) (x : Stack)
    (y : Option (Array TraceEvent)) : CountedDown m n capacity
      (.error (.fault (.stackOverflow m.world.config.maxCallDepth)) (m.restack x y))

theorem CountedDown.restacked {m : Machine F S} {n : Int64} {c : Nat} {x : Stack}
    {y : Option (Array TraceEvent)} {r : EStateM.Result Unwind (Machine F S) Unit}
    (h : CountedDown (m.restack x y) n c r) : CountedDown m n c r := by
  cases h with
  | returned hroom x' y' hcapacity => exact CountedDown.returned (m := m) hroom x' y' hcapacity
  | overflowed hfull x' y' => exact CountedDown.overflowed (m := m) hfull x' y'

section Activations

variable {P : Perform F S} {f g : FnId} {layout : Layout} {stride : Nat} {body : Body F S Unit}
  {m : Machine F S} {frame : Frame} {n : Int64}

theorem toInt_pred (h : 0 < n) : (n - 1).toInt = n.toInt - 1 := by
  have hpos : 0 < n.toInt := Int64.lt_iff_toInt_lt.1 h
  have hbound := n.toInt_lt
  rw [Int64.toInt_sub, show (1 : Int64).toInt = 1 from rfl]
  exact Int.bmod_eq_of_le (by omega) (by omega)

theorem pred_nonneg (h : 0 < n) : 0 ≤ n - 1 := by
  have hpos : 0 < n.toInt := Int64.lt_iff_toInt_lt.1 h
  rw [Int64.le_iff_toInt_le, toInt_pred h]
  exact Int.le_sub_one_of_lt hpos

variable [HostBody F S]

/-- The fault of a request that a body waits for ends the body, and is counted out. -/
theorem runBody_fails {α : Type} {x : M F S α} {rest : α → Body F S Unit} {s : Active F S}
    {t : Machine F S} {e : Fault} (hbody : body ⟨frame, m⟩ = (Body.lift x >>= rest) s)
    (hx : x s.machine = .error (.fault e) t) :
    ensuring (runBody g body frame) leave m = .error (.fault e) (leave t) := by
  have hrun := runBody_eq g body frame m
  rw [hbody, bind_of_error (Body.lift_of_error hx)] at hrun
  exact ensuring_error hrun

/-- The last activation. -/
theorem Descends.ends (h : Descends P f layout stride body)
    (hfresh : (entered m).Fresh layout [.fn f, .int 0] frame)
    (hframe : frame.view.base + layout.slots ≤ m.thread.stack.capacity)
    (hroom : m.thread.depth < m.world.config.maxCallDepth) : CountedDown m 0
      m.thread.stack.capacity (ensuring (runBody g body frame) leave (entered m)) := by
  obtain ⟨_, x, y, hcapacity, hend⟩ := h.zero _ _ hfresh hframe
  have hrun := runBody_eq g body frame (entered m)
  rw [hend] at hrun
  rw [ensuring_ok hrun]
  exact .returned (by show _ + (0 : Int) + 1 ≤ _; omega) x y hcapacity

/-- Every other activation calls the next one, and ends as that one does. -/
theorem Descends.calls (h : Descends P f layout stride body) (hn : 0 < n)
    (hfresh : (entered m).Fresh layout [.fn f, .int n] frame)
    (hframe : frame.view.base + layout.slots ≤ m.thread.stack.capacity) :
    ∃ (x : Stack) (y : Option (Array TraceEvent)),
      let w : View := ⟨frame.view.base + stride, 2⟩
      x.capacity = Stack.grown (frame.view.base + stride + 2) m.thread.stack.capacity ∧
      w.live (entered (m.restack x y)) = [.fn f, .int (n - 1)] ∧
      ∀ c, x.capacity ≤ c → CountedDown (entered (m.restack x y)) (n - 1) c
          (P (.call w (.fn f)) (entered (m.restack x y))) →
        CountedDown m n c (ensuring (runBody g body frame) leave (entered m)) := by
  obtain ⟨left, x, y, rest, hcapacity, hlive, hcall, hrest⟩ := h.pos _ _ n hn hfresh hframe
  refine ⟨x, y, hcapacity, hlive, fun c hle hnext => ?_⟩
  have hpred := toInt_pred hn
  let w : View := ⟨frame.view.base + stride, 2⟩
  generalize hcalled : P (.call w (.fn f)) (entered (m.restack x y)) = r at hnext
  cases hnext with
  | returned hroom x' y' hc =>
    obtain ⟨_, x₁, y₁, hkept, hend⟩ :=
      hrest (((entered (m.restack x y)).restack x' y').withResults _) _ rfl (hc ▸ hle)
    have hlift := Body.lift_of_ok (s := ⟨left, entered (m.restack x y)⟩) hcalled
    have hrun := (runBody_eq g body frame (entered m)).trans
      (congrArg (leaveBody g) (hcall.trans ((bind_of_ok hlift).trans hend)))
    have hsum : 100 + (n - 1) + 1 = 100 + n := by rw [Int64.add_assoc, Int64.sub_add_cancel]
    rw [hsum] at hrun
    rw [ensuring_ok hrun]
    refine .returned (?_ : (m.thread.depth : Int) + _ + 1 ≤ _) x₁ y₁ (hkept.symm.trans hc)
    have hroom : ((m.thread.depth + 1 : Nat) : Int) + (n - 1).toInt + 1 ≤
      m.world.config.maxCallDepth := hroom
    omega
  | overflowed hfull x' y' =>
    rw [runBody_fails hcall hcalled]
    refine .overflowed (?_ : _ < (m.thread.depth : Int) + _ + 1) x' y'
    have hfull : (m.world.config.maxCallDepth : Int) <
      ((m.thread.depth + 1 : Nat) : Int) + (n - 1).toInt + 1 := hfull
    omega

end Activations

/-- The body of a recursive function counts down. -/
theorem Callable.Recurses.descends {c : Callable F} (h : c.Recurses) (P : Perform F S) (f g : FnId)
    {fuel : Nat} (hfuel : 11 ≤ fuel) :
    ∃ name layout body, c.body? fuel P g = some (name, layout, body) ∧ layout.params ≤ 2 ∧
      layout.slots = c.spans.1 ∧ Descends P f layout c.spans.2 body := by
  cases h with
  | fixed => exact ⟨_, _, _, rfl, by decide, rfl, Routine.recurse_descends P f false⟩
  | packed => exact ⟨_, _, _, rfl, by decide, rfl, Routine.recurse_descends P f true⟩
  | compiled => exact ⟨_, _, _, rfl, by decide, rfl, Bodies.recurse_descends P f g hfuel⟩

/-! ## Calls from outside -/

/-- What a call from outside makes of the ending of its request. -/
def outcomeOf : EStateM.Result Unwind (Machine F S) Unit →
    EStateM.Result Unwind (Machine F S) (List Val)
  | .ok _ t => takeResults t
  | .error (.suspend _) t => .error (.fault (.contract .suspendedAtTop)) t
  | .error e t => .error e t

/-- A call from outside is a request on a window with the arguments at the bottom of the stack. -/
theorem callFromOutside_eq (target : Val) (args : List Val) (m : Machine F S) : ∃ x,
    ∀ P : Perform F S, callFromOutside P target args m = outcomeOf
      (P (.call ⟨0, args.length⟩ target) (m.restack (View.root.load m.thread.stack args).2 x)) := by
  obtain ⟨x, hx⟩ := onStack_ok (View.root.load · args) m
  refine ⟨x, fun P => ?_⟩
  have hcall : callWith P .root target args m = P (.call ⟨0, args.length⟩ target) _ := bind_of_ok hx
  unfold callFromOutside
  rw [attempt_bind, hcall]
  cases P (.call ⟨0, args.length⟩ target) (m.restack (View.root.load m.thread.stack args).2 x) with
  | ok u t => rfl
  | error e t => cases e <;> rfl

/-- A machine with nothing in its result channel. -/
def Machine.emptied (m : Machine F S) : Machine F S :=
  { m with thread := { m.thread with results := .empty } }

/-- The results of the request leave the channel. -/
theorem outcomeOf_values {m : Machine F S} {values : List Val}
    (h : m.thread.results = .ofValues values) : outcomeOf (.ok () m) = .ok values m.emptied := by
  show ((orViolate m.thread.results.take : M F S (List Val × Results)) >>= fun r => do
    setChannel r.2
    return r.1) m = _
  rw [h]
  rfl

section Calls

variable [HostBody F S] {m : Machine F S} {f : FnId} {n : Int64} {w : View} {c : Nat}

/-- A request ends as its call does, as there is no tail call to carry out. -/
theorem CountedDown.drained {x : M F S Unit} (h : CountedDown m n c (x m)) (r : Runner F S)
    (w : View) (fuel : Nat) : CountedDown m n c ((x >>= fun _ => drain r w (fuel + 1)) m) := by
  cases hx : x m with
  | ok u t =>
    rw [hx] at h
    rw [bind_of_ok hx]
    cases h with
    | returned hroom x' y' hcapacity =>
      rw [drain_values r w fuel rfl]
      exact .returned hroom x' y' hcapacity
  | error e t =>
    rw [hx] at h
    rw [bind_of_error hx]
    exact h

/-- **Countdowns.** The induction is on the fuel, which is enough for the calls for which there is
room. -/
theorem perform_counts (hf : (m.heap.function f).Recurses) (hn : 0 ≤ n)
    (hdepth : m.thread.depth ≤ m.world.config.maxCallDepth) (hlive : w.live m = [.fn f, .int n])
    {fuel : Nat}
    (hfuel : min n.toInt.toNat (m.world.config.maxCallDepth - m.thread.depth) + 12 ≤ fuel) :
    let spans := (m.heap.function f).spans
    CountedDown m n
      (Stack.grownAll (descent spans.1 spans.2 n.toInt.toNat w.base) m.thread.stack.capacity)
      (perform fuel (.call w (.fn f)) m) := by
  induction fuel generalizing m n w with
  | zero => omega
  | succ fuel ih =>
    intro spans
    obtain ⟨fuel, rfl⟩ : ∃ k, fuel = k + 1 := ⟨fuel - 1, by omega⟩
    refine CountedDown.drained (x := invoke (runner (fuel + 1) (perform (fuel + 1))) w (.fn f)) ?_
      _ w fuel
    by_cases hroom : m.thread.depth < m.world.config.maxCallDepth
    · obtain ⟨name, layout, body, hbody, hparams, hslots, hdescends⟩ :=
        hf.descends (perform (fuel + 1)) f f (show 11 ≤ fuel + 1 by omega)
      obtain ⟨frame, s, t, hfresh, hbase, hcapacity, hinvoke⟩ :=
        invoke_opens (body?_arity hbody) hlive hparams rfl nofun
      rw [hinvoke hbody hroom]
      refine .restacked (x := s) (y := t) ?_
      have hframe : frame.view.base + layout.slots ≤ s.capacity := by
        rw [hbase, hcapacity]
        exact Stack.le_grown ..
      rw [hslots] at hcapacity
      by_cases hzero : n = 0
      · subst hzero
        have hends := hdescends.ends (g := f) (m := m.restack s t) hfresh hframe hroom
        rwa [restack_stack, hcapacity] at hends
      · have hpos := Int64.lt_of_le_of_ne hn (Ne.symm hzero)
        have hint : 0 < n.toInt := Int64.lt_iff_toInt_lt.1 hpos
        have hpred := toInt_pred hpos
        obtain ⟨x, y, hgrown, hlive', hcalls⟩ :=
          hdescends.calls (g := f) (m := m.restack s t) hpos hfresh hframe
        have hfuel' : min (n - 1).toInt.toNat (m.world.config.maxCallDepth - (m.thread.depth + 1)) +
            12 ≤ fuel + 1 := by omega
        have hnext := ih (m := entered ((m.restack s t).restack x y)) hf (pred_nonneg hpos) hroom
          hlive' hfuel'
        rw [hbase, restack_stack, hcapacity] at hgrown
        have hcount : n.toInt.toNat = (n - 1).toInt.toNat + 1 := by omega
        rw [hcount, descent, Stack.grownAll_cons, Stack.grownAll_cons, ← hgrown]
        rw [hbase] at hnext hcalls
        exact hcalls _ (Stack.le_grownAll ..) hnext
    · -- There is no room for this call, so none of the calls below it is made.
      have hruns := invoke_runs (m := m) (.here f) (Nat.zero_le _) w
      obtain ⟨_, s, t, -, hinvoke⟩ := hruns
      have hfull : m.world.config.maxCallDepth = m.thread.depth := by omega
      have hpos : 0 ≤ n.toInt := Int64.le_iff_toInt_le.1 hn
      have hend : invoke (runner (fuel + 1) (perform (fuel + 1))) w (.fn f) m =
          .error (.fault (.stackOverflow m.world.config.maxCallDepth)) (m.restack s t) := by
        refine (hinvoke _).trans ?_
        rw [if_pos (Nat.le_of_eq hfull), ← hfull]
      rw [hend]
      exact .overflowed (by omega) s t

/-- **The recursive functions agree.** Called from outside with itself and a count, each of the
three functions gives `100 + n` if there is room for `n + 1` calls, and else a stack overflow with
the limit. Afterwards no call is in progress, and no object and no global has changed. -/
theorem recursions_agree (hf : (m.heap.function f).Recurses) (hdepth : m.thread.depth = 0)
    (hn : 0 ≤ n) {fuel : Nat} (hfuel : min n.toInt.toNat m.world.config.maxCallDepth + 12 ≤ fuel) :
    ∃ t, m.Unwritten t ∧ t.thread.depth = 0 ∧
      callFromOutside (perform fuel) (.fn f) [.fn f, .int n] m =
        if n.toInt + 1 ≤ m.world.config.maxCallDepth then .ok [.int (100 + n)] t
        else .error (.fault (.stackOverflow m.world.config.maxCallDepth)) t := by
  obtain ⟨x, hcall⟩ := callFromOutside_eq (.fn f) [.fn f, .int n] m
  have hroot : (⟨0, 2⟩ : View).live
      (m.restack (View.root.load m.thread.stack [.fn f, .int n]).2 x) = [.fn f, .int n] :=
    View.live_load .root m x
  generalize (View.root.load m.thread.stack [.fn f, .int n]).2 = s at hcall hroot
  have hbound : (m.restack s x).thread.depth ≤ (m.restack s x).world.config.maxCallDepth := by
    show m.thread.depth ≤ _
    omega
  have hcounts := perform_counts (m := m.restack s x) hf hn hbound hroot
    (show min n.toInt.toNat (m.world.config.maxCallDepth - m.thread.depth) + 12 ≤ fuel by omega)
  generalize hr : perform fuel (.call ⟨0, 2⟩ (.fn f)) (m.restack s x) = r at hcounts
  rw [(hcall (perform fuel)).trans (congrArg outcomeOf hr)]
  cases hcounts.restacked with
  | returned hroom y z =>
    refine ⟨(m.restack y z).emptied, ⟨rfl, rfl, rfl⟩, hdepth, ?_⟩
    rw [outcomeOf_values (m := (m.restack y z).withResults [.int (100 + n)]) rfl, if_pos (by omega)]
    rfl
  | overflowed hfull y z =>
    refine ⟨m.restack y z, ⟨rfl, rfl, rfl⟩, hdepth, ?_⟩
    rw [if_neg (by omega)]
    rfl

/-- The compiled function counts down from 20. -/
theorem recursions_agree_twenty :
    let m : Machine Empty PUnit :=
      start (⟨#[], #[], #[.closure Bodies.recurse #[]], #[]⟩ : Heap Empty) .default none ⟨⟩
    (m.heap.function ⟨0⟩).Recurses ∧ m.thread.depth = 0 ∧ (0 : Int64) ≤ 20 ∧
      ∃ t, m.Unwritten t ∧ t.thread.depth = 0 ∧
        callFromOutside (perform 32) (.fn ⟨0⟩) [.fn ⟨0⟩, .int 20] m = .ok [.int 120] t := by
  intro m
  have hf : (m.heap.function ⟨0⟩).Recurses := .compiled _
  exact ⟨hf, rfl, by decide, recursions_agree hf rfl (by decide) (by decide)⟩

end Calls

end ScriptCore
