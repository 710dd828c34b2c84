import ScriptCore.Proofs.Recursion
import ScriptCore.Proofs.Trampoline

/-!
# Loops by tail calls

Three loops count down by tail calls: a function that calls itself, two functions that call each
other, and a compiled body that calls itself through a global (`TailLoop`).

1. One activation leaves the accumulator as result, or asks for the tail call with the count below
   and the accumulator above (`TailLoop.proceeds`). It asks for no other call, and writes to its own
   slots only.
2. So a call changes nothing but the result channel, the trace and the slots of its frame; once
   there is room for the frame, the stack does not grow (`TailLoop.invoke_proceeds`).
3. The tail calls of a request use one window, so by induction on the count the whole loop needs
   the room of one frame and the depth of one call (`TailLoop.drain_hops`, `tail_loops_run`).
-/

namespace ScriptCore

open Machine Interpreter

variable {F S : Type}

/-- As many values as there is room for are all taken. -/
theorem padded_full {n : Nat} {vs : List Val} (h : vs.length = n) : padded n vs = vs := by
  subst h
  simp [padded]

/-! ## Loops -/

/-- A loop by tail calls, at the function that is called. -/
inductive TailLoop
  | step (f : FnId)
  | bounce (f g : FnId)
  | count (f : FnId)

namespace TailLoop

/-- The function that is called. -/
def entry : TailLoop → FnId
  | step f | bounce f _ | count f => f

/-- The loop at the function that is called next. -/
def next : TailLoop → TailLoop
  | step f => step f
  | bounce f g => bounce g f
  | count f => count f

/-- The arguments for a count and an accumulator. -/
def args (n acc : Int64) : TailLoop → List Val
  | step f => [.fn f, .int n, .int acc]
  | bounce f g => [.fn f, .fn g, .int n, .int acc]
  | count _ => [.int n, .int acc]

def layout : TailLoop → Layout
  | step _ => Routine.tailStep.layout
  | bounce .. => Routine.bounce.layout
  | count _ => Bodies.count.layout

/-- On a machine the functions are what they are taken for. -/
def On (m : Machine F S) : TailLoop → Prop
  | step f => m.heap.function f = .routine .tailStep
  | bounce f g => m.heap.function f = .routine .bounce ∧ m.heap.function g = .routine .bounce
  | count f => (∃ cells, m.heap.function f = .closure Bodies.count cells) ∧
      (m.heap.table m.world.globals).getStr "count" = .fn f

/-- What an activation leaves in the channel. -/
def results (l : TailLoop) (n acc : Int64) : Results :=
  if n = 0 then .ofValues [.int acc]
  else .tailCall (.fn l.next.entry) (l.next.args (n - 1) (acc + 1))

variable {l : TailLoop} {m u : Machine F S} {n acc : Int64}

theorem On.congr (h : l.On m) (hheap : u.heap = m.heap) (hworld : u.world = m.world) : l.On u := by
  cases l with
  | step f => exact (congrArg (Heap.function · f) hheap).trans h
  | bounce f g =>
    exact ⟨(congrArg (Heap.function · f) hheap).trans h.1,
      (congrArg (Heap.function · g) hheap).trans h.2⟩
  | count f =>
    obtain ⟨⟨cells, hf⟩, hglobal⟩ := h
    refine ⟨⟨cells, (congrArg (Heap.function · f) hheap).trans hf⟩, ?_⟩
    rw [hheap, hworld]
    exact hglobal

theorem On.next (h : l.On m) : l.next.On m := by
  cases l with
  | step f | count f => exact h
  | bounce f g => exact ⟨h.2, h.1⟩

theorem length_args (l : TailLoop) (n acc : Int64) : (l.args n acc).length = l.layout.params := by
  cases l <;> rfl

theorem layout_next (l : TailLoop) : l.next.layout = l.layout := by
  cases l <;> rfl

theorem layout_arity (l : TailLoop) : l.layout.arity = .fixed l.layout.params := by
  cases l <;> rfl

theorem layout_slots (l : TailLoop) : l.layout.params ≤ l.layout.slots ∧ l.layout.slots ≤ 5 := by
  have hall : ∀ layout ∈ [Routine.tailStep.layout, Routine.bounce.layout, Bodies.count.layout],
      layout.params ≤ layout.slots ∧ layout.slots ≤ 5 := by decide
  cases l <;> exact hall _ (by simp [layout])

theorem On.ne_echo (h : l.On m) : m.heap.function l.entry ≠ .routine .echo := by
  cases l with
  | step f => exact fun hecho => by cases h.symm.trans hecho
  | bounce f g => exact fun hecho => by cases h.1.symm.trans hecho
  | count f =>
    obtain ⟨⟨cells, hf⟩, -⟩ := h
    exact fun hecho => by cases hf.symm.trans hecho

/-! ## One activation -/

/-- A count down by hand. -/
theorem countdown_int (body : String) (target : Val) (callees : List Val) (hn : 0 ≤ n)
    (m : Machine F S) : Routine.countdown body target callees (.int n) (.int acc) m =
      .ok () (m.withChannel (if n = 0 then .ofValues [.int acc]
        else .tailCall target (callees ++ [.int (n - 1), .int (acc + 1)]))) := by
  have hint : (Routine.integer (.int n) body : M F S Int64) m = .ok n m := rfl
  unfold Routine.countdown
  rw [bind_of_ok hint]
  by_cases hzero : n = 0
  · rw [if_pos hzero, if_pos hzero]
    rfl
  · have hpred := Routine.predecessor_pos (Int64.lt_of_le_of_ne hn (Ne.symm hzero)) m
    rw [if_neg hzero, if_neg hzero, bind_of_ok (Routine.successor_int acc m), bind_of_ok hpred]
    rfl

end TailLoop

namespace Bodies

variable {globals : Val → Option Val} {n acc : Int64}

theorem count_settles_test (globals : Val → Option Val) (n acc : Int64) :
    count.settle? globals 2 0 [.int n, .int acc, .nil, .nil, .nil] =
      some (2, [.int n, .int acc, .bool (decide (n = 0)), .nil, .nil]) :=
  (Proto.settle?_succ (show count.code[0]? = some (.const 2 0) from rfl) rfl 1).trans
    (Proto.settle?_succ (show count.code[1]? = some (.binary .eq 2 0 2) from rfl)
      (Op.settle?_binary rfl rfl (BinOp.apply_eq n 0) (by show 2 < 5; omega) _) 0)

theorem count_settles_zero (globals : Val → Option Val) (acc : Int64) :
    count.settle? globals 3 0 [.int 0, .int acc, .nil, .nil, .nil] =
      some (3, [.int 0, .int acc, .bool true, .nil, .nil]) :=
  Proto.settle?_trans (count_settles_test globals 0 acc) 1

theorem count_settles_pos {f : FnId} (h : n ≠ 0) (hglobal : globals (.str "count") = some (.fn f))
    (acc : Int64) :
    count.settle? globals 7 0 [.int n, .int acc, .nil, .nil, .nil] =
      some (8, [.int n, .int acc, .fn f, .int (n - 1), .int (acc + 1)]) := by
  have htest := count_settles_test globals n acc
  rw [decide_eq_false h] at htest
  have hlookup : (Op.getGlobal 2 2).settle? count.constants globals
      [.int n, .int acc, .bool false, .nil, .nil] 4 =
        some (5, [.int n, .int acc, .fn f, .nil, .nil]) := by
    show ((globals (.str "count")).bind fun v => _) = _
    rw [hglobal]
    rfl
  refine (Proto.settle?_trans htest 5).trans ?_
  refine (Proto.settle?_succ (show count.code[2]? = some (.test 2 false 4) from rfl) rfl 4).trans ?_
  exact (Proto.settle?_succ rfl hlookup 3).trans rfl

theorem count_bare (r : Nat) : ¬ count.isReified r := Bool.false_ne_true

/-- The compiled body on a fresh frame. -/
theorem count_proceeds {F S : Type} {m : Machine F S} {frame : Frame} {f : FnId}
    (hglobal : m.global? (.str "count") = some (.fn f))
    (h : m.Fresh count.layout [.int n, .int acc] frame) :
    ∃ t, Active.Onward ⟨frame, m⟩ t ∧ ∀ (P : Perform F S) g fuel, 8 ≤ fuel →
      Interpreter.run fuel P g count ⟨frame, m⟩ =
        .ok () ⟨t.frame, t.machine.withChannel ((TailLoop.count f).results n acc)⟩ := by
  by_cases hzero : n = 0
  · subst hzero
    obtain ⟨t, ht, hregs, hrun⟩ := run_settles count_bare h (Nat.le_refl 2)
      (count_settles_zero _ acc)
    have hslots : t.frame.slots = 5 := ht.slots.trans h.slots
    refine ⟨t, ht, fun P g fuel hfuel => ?_⟩
    have hreturn : count.code[3]? = some (.ret 1 (.fixed 1)) := rfl
    have hret := loop_ret hreturn (by rw [hslots]; decide) P g (fuel - 4)
    rw [hregs] at hret
    rw [show fuel = 3 + (fuel - 4 + 1) by omega, hrun]
    exact hret
  · obtain ⟨t, ht, hregs, hrun⟩ := run_settles count_bare h (Nat.le_refl 2)
      (count_settles_pos hzero hglobal acc)
    have hslots : t.frame.slots = 5 := ht.slots.trans h.slots
    refine ⟨t, ht, fun P g fuel hfuel => ?_⟩
    have htail : count.code[8]? = some (.tailCall 2 (.fixed 2)) := rfl
    have htarget : t.registers[(2 : Reg).toNat]? = some (.fn f) := by
      rw [hregs]
      rfl
    have hcall := loop_tailCall_fixed htail (by decide) htarget (by rw [hslots]; decide) P g
      (fuel - 8)
    rw [hregs] at hcall
    rw [TailLoop.results, if_neg hzero, show fuel = 7 + (fuel - 8 + 1) by omega, hrun]
    exact hcall

end Bodies

namespace TailLoop

variable {l : TailLoop} {m : Machine F S} {frame : Frame} {n acc : Int64}

/-- From a fresh frame an activation goes on to its results. -/
def Proceeds (l : TailLoop) (n acc : Int64) (m : Machine F S) (frame : Frame) : Prop :=
  ∃ t, Active.Onward ⟨frame, m⟩ t ∧ ∀ (P : Perform F S) fuel, 8 ≤ fuel → ∃ name body,
    (m.heap.function l.entry).body? fuel P l.entry = some (name, l.layout, body) ∧
      body ⟨frame, m⟩ = .ok () ⟨t.frame, t.machine.withChannel (l.results n acc)⟩

/-- A hand-written body that counts its parameters down. -/
theorem routine_proceeds {r : Routine} (hf : m.heap.function l.entry = .routine r)
    (hlayout : r.layout = l.layout) (hfresh : m.Fresh l.layout (l.args n acc) frame)
    (hcount : ∀ v, (∀ i < l.layout.params, v i = (l.args n acc).getD i .nil) → ∃ x : M F S Unit,
      r.count? v = some x ∧ x m = .ok () (m.withChannel (l.results n acc))) :
    l.Proceeds n acc m frame := by
  refine ⟨⟨frame, m⟩, .refl _, fun P fuel _ => ⟨r.name, r.run fuel P, ?_, ?_⟩⟩
  · rw [hf, ← hlayout]
    rfl
  · obtain ⟨x, hx, hend⟩ := hcount _ hfresh.params
    rw [Routine.run_count hx]
    exact Body.lift_of_ok hend

/-- **One activation.** On a fresh frame a loop leaves its results, or asks for the next call. -/
theorem proceeds (h : l.On m) (hn : 0 ≤ n) (hfresh : m.Fresh l.layout (l.args n acc) frame) :
    l.Proceeds n acc m frame := by
  cases l with
  | step f =>
    refine routine_proceeds (r := .tailStep) h rfl hfresh fun v hv => ⟨_, rfl, ?_⟩
    rw [hv 0 (show 0 < 3 by omega), hv 1 (show 1 < 3 by omega), hv 2 (show 2 < 3 by omega)]
    exact countdown_int _ _ _ hn m
  | bounce f g =>
    refine routine_proceeds (r := .bounce) h.1 rfl hfresh fun v hv => ⟨_, rfl, ?_⟩
    rw [hv 0 (show 0 < 4 by omega), hv 1 (show 1 < 4 by omega), hv 2 (show 2 < 4 by omega),
      hv 3 (show 3 < 4 by omega)]
    exact countdown_int _ _ _ hn m
  | count f =>
    obtain ⟨⟨cells, hf⟩, hglobal⟩ := h
    have hglobal : m.global? (.str "count") = some (.fn f) := by
      have hget : (m.heap.table m.world.globals).get (.str "count") = .fn f := hglobal
      rw [global?, hget]
      rfl
    obtain ⟨t, ht, hrun⟩ := Bodies.count_proceeds hglobal hfresh
    refine ⟨t, ht, fun P fuel hfuel =>
      ⟨"count", run fuel P f Bodies.count, ?_, hrun P f fuel hfuel⟩⟩
    exact congrArg (Callable.body? fuel P f) hf

end TailLoop

/-! ## One call -/

namespace Watch

/-- Checks that no two calls are in progress at once. -/
def shallow (alarm : M F S Unit) : Watch F S where
  within _ m := m.thread.depth ≤ 1
  yields _ := True
  alarm := alarm

theorem around_ok {W : Watch F S} {acts : List Activity} {x : M F S Unit} {m t : Machine F S}
    (hm : W.within acts m) (ht : W.within acts t) (h : x m = .ok () t) :
    W.around acts x m = .ok () t := by
  unfold around
  rw [if_pos hm, h]
  exact if_pos ht

end Watch

section Calls

variable [HostBody F S] {m : Machine F S} {n acc : Int64}

/-- The functions with a body, but for the one that yields, run it as it is, at least while one call
is in progress. -/
def Machine.Runner.Shallow (r : Runner F S) (fuel : Nat) : Prop :=
  ∀ f, ∃ P : Perform F S, ∀ {args m t name layout body}, m.heap.function f ≠ .routine .echo →
    (m.heap.function f).body? fuel P f = some (name, layout, body) → m.thread.depth ≤ 1 →
    t.thread.depth ≤ 1 → enterBody f layout body args m = .ok () t → r.run f args m = .ok () t

theorem runner_shallow (fuel : Nat) (P : Perform F S) : (runner fuel P).Shallow fuel :=
  fun _ => ⟨P, fun _ hbody _ _ hrun => (runFunction_body hbody _).trans hrun⟩

theorem Watch.shallow_runner (alarm : M F S Unit) (P : List Activity → Perform F S)
    (acts : List Activity) (fuel : Nat) : ((shallow alarm).runner P acts fuel).Shallow fuel := by
  refine fun f => ⟨P (.call f :: acts),
    fun {args m t name layout body} hecho hbody hm ht hrun => ?_⟩
  refine around_ok (W := shallow alarm) hm ht (Eq.trans ?_ hrun)
  unfold Watch.function
  rw [functionAt_bind]
  cases hc : m.heap.function f with
  | closure proto cells => rw [hc] at hbody; cases hbody; rfl
  | routine r =>
    rw [hc] at hbody hecho
    cases hbody
    cases r with
    | echo => exact absurd rfl hecho
    | _ => rfl
  | builtin | protectedCall | wrapped | host => rw [hc] at hbody; cases hbody

namespace TailLoop

variable {l : TailLoop}

theorem On.arity (h : l.On m) : (m.heap.function l.entry).arity = .fixed l.layout.params := by
  rw [← layout_arity]
  cases l with
  | step f => exact congrArg Callable.arity h
  | bounce f g => exact congrArg Callable.arity h.1
  | count f =>
    obtain ⟨⟨cells, hf⟩, -⟩ := h
    exact congrArg Callable.arity hf

/-- **One call.** A call of a loop leaves its results, and provides the slots of its frame. -/
theorem invoke_proceeds (h : l.On m) (hn : 0 ≤ n) (hdepth : m.thread.depth = 0)
    (hmax : 1 ≤ m.world.config.maxCallDepth)
    (hlive : (⟨0, l.layout.params⟩ : View).live m = l.args n acc)
    (hroom : l.layout.params ≤ m.thread.stack.capacity) : ∃ x y,
      x.capacity = Stack.grown l.layout.slots m.thread.stack.capacity ∧
      ∀ (r : Runner F S) fuel, 8 ≤ fuel → r.Shallow fuel →
        invoke r ⟨0, l.layout.params⟩ (.fn l.entry) m =
          .ok () ((m.restack x y).withChannel (l.results n acc)) := by
  let w : View := ⟨0, l.layout.params⟩
  have hresolve : resolve w (.fn l.entry) m.world.config.maxMetaChain m = .ok (l.entry, w) m := by
    rw [resolve_fn]
    rfl
  obtain ⟨args, u, x, hshape, hinvoke⟩ := Regime.invoke_resolved hresolve
  -- The window has as many values as there are parameters, so that it is left as it is.
  obtain ⟨y, hfit⟩ := onStack_ok (w.fit · l.layout.params) m
  rw [View.fit_of_le w _ (Nat.le_refl _)] at hfit
  rw [h.arity] at hshape
  cases hfit.symm.trans hshape
  let v := entered (m.restack m.thread.stack x)
  have hfitted : w.live v = l.layout.arity.fit (l.args n acc) := by
    rw [layout_arity, Arity.fit, padded_full (l.length_args n acc)]
    exact hlive
  obtain ⟨frame, s, t, hopen, hfresh, hbase, hcapacity⟩ :=
    openFrame_full (Nat.le_refl _) hfitted
      (show 0 + l.layout.params ≤ m.thread.stack.capacity by omega)
  rw [Nat.zero_add] at hcapacity
  obtain ⟨⟨left, u⟩, ht, hrun⟩ := proceeds (m := v.restack s t) (h.congr rfl rfl) hn hfresh
  obtain ⟨a, b, rfl : u = (v.restack s t).restack a b⟩ := ht.machine
  refine ⟨a, b, ?_, fun r fuel hfuel hr => ?_⟩
  · have hkept := ht.capacity (by
      show frame.view.base + frame.slots ≤ s.capacity
      rw [hbase, hfresh.slots, Nat.zero_add, hcapacity]
      exact Stack.le_grown ..)
    exact hkept.trans hcapacity
  · obtain ⟨P, hP⟩ := hr l.entry
    obtain ⟨name, body, hbody, hend⟩ := hrun P fuel hfuel
    let z := ((v.restack s t).restack a b).withChannel (l.results n acc)
    have henter : enterBody l.entry l.layout body w v = .ok () z :=
      (bind_of_ok hopen).trans ((runBody_eq ..).trans (congrArg (leaveBody l.entry) hend))
    have hdeeper : v.thread.depth ≤ 1 := by
      show m.thread.depth + 1 ≤ 1
      omega
    have hrun := hP (m := v) (t := z) h.ne_echo hbody hdeeper hdeeper henter
    refine (hinvoke r).trans ((Regime.counted_eq ..).trans ?_)
    refine (if_neg ?_).trans (ensuring_ok hrun)
    show ¬ m.world.config.maxCallDepth ≤ m.thread.depth
    omega

/-! ## The whole loop -/

/-- **One tail call.** It is carried out in the same window, so that a stack with room for the frame
does not grow. -/
theorem drain_hop (h : l.On m) (hn : 0 < n) (hdepth : m.thread.depth = 0)
    (hmax : 1 ≤ m.world.config.maxCallDepth) (hroom : l.layout.slots ≤ m.thread.stack.capacity)
    (acc : Int64) : ∃ x y, x.capacity = m.thread.stack.capacity ∧
      ∀ (r : Runner F S) fuel, 8 ≤ fuel → r.Shallow fuel → ∀ k,
        drain r ⟨0, l.layout.params⟩ (k + 1) (m.withChannel (l.results n acc)) =
          drain r ⟨0, l.layout.params⟩ k
            ((m.restack x y).withChannel (l.next.results (n - 1) (acc + 1))) := by
  let args := l.next.args (n - 1) (acc + 1)
  have hlength : args.length = l.layout.params := by
    rw [← l.layout_next]
    exact l.next.length_args ..
  have hasked : (m.withChannel (l.results n acc)).thread.results =
      .tailCall (.fn l.next.entry) args :=
    if_neg (Int64.ne_of_lt hn).symm
  obtain ⟨y, hdrain⟩ := drain_load hasked ⟨0, l.layout.params⟩
  let m₁ := ((m.withChannel (l.results n acc)).withResults args).restack
    (View.load ⟨0, l.layout.params⟩ m.thread.stack args).2 y
  have hslots := l.layout_slots
  -- The arguments take a part of the frame's room only.
  have hloaded : m₁.thread.stack.capacity = m.thread.stack.capacity :=
    (View.capacity_load ..).trans (Stack.grown_of_le (by show 0 + args.length ≤ _; omega))
  have hlive : (⟨0, l.next.layout.params⟩ : View).live m₁ = args := by
    rw [l.layout_next, ← hlength]
    exact View.live_load ..
  obtain ⟨s, t, hs, hinvoke⟩ := invoke_proceeds (m := m₁) (h.next.congr rfl rfl)
    (pred_nonneg hn) hdepth hmax hlive (by rw [l.layout_next]; omega)
  rw [l.layout_next, hloaded, Stack.grown_of_le hroom] at hs
  rw [l.layout_next] at hinvoke
  refine ⟨s, t, hs, fun r fuel hfuel hr k => (hdrain r k).trans ?_⟩
  rw [hlength]
  exact bind_of_ok (hinvoke r fuel hfuel hr)

/-- **Tail calls in a row.** The induction is on the count. -/
theorem drain_hops {k : Nat} (h : l.On m) (hn : n.toInt = k) (hdepth : m.thread.depth = 0)
    (hmax : 1 ≤ m.world.config.maxCallDepth) (hroom : l.layout.slots ≤ m.thread.stack.capacity)
    (acc : Int64) : ∃ x y, x.capacity = m.thread.stack.capacity ∧
      ∀ (r : Runner F S) fuel j, 8 ≤ fuel → r.Shallow fuel → k < j →
        drain r ⟨0, l.layout.params⟩ j (m.withChannel (l.results n acc)) =
          .ok () ((m.restack x y).withResults [.int (acc + n)]) := by
  induction k generalizing l m n acc with
  | zero =>
    obtain rfl : n = 0 := Int64.toInt_inj.1 hn
    refine ⟨m.thread.stack, m.trace, rfl, fun r fuel j _ _ hj => ?_⟩
    obtain ⟨j, rfl⟩ := Nat.exists_eq_add_one_of_ne_zero (Nat.ne_zero_of_lt hj)
    rw [Int64.add_zero]
    exact drain_values r _ j rfl
  | succ k ih =>
    have hpos : 0 < n := Int64.lt_iff_toInt_lt.2 (by rw [hn]; exact Int.natCast_succ_pos k)
    have hpred : (n - 1).toInt = k := by rw [toInt_pred hpos, hn]; omega
    have hsum : acc + 1 + (n - 1) = acc + n := by
      rw [Int64.add_assoc, Int64.add_comm 1, Int64.sub_add_cancel]
    obtain ⟨x, y, hx, hfirst⟩ := drain_hop h hpos hdepth hmax hroom acc
    obtain ⟨x', y', hx', hrest⟩ := ih (m := m.restack x y) (h.next.congr rfl rfl) hpred hdepth hmax
      (by rw [l.layout_next]; exact hx ▸ hroom) (acc + 1)
    refine ⟨x', y', hx'.trans hx, fun r fuel j hfuel hr hj => ?_⟩
    obtain ⟨j, rfl⟩ := Nat.exists_eq_add_one_of_ne_zero (Nat.ne_zero_of_lt hj)
    have hrest := hrest r fuel j hfuel hr (Nat.lt_of_succ_lt_succ hj)
    rw [l.layout_next, hsum] at hrest
    exact (hfirst r fuel hfuel hr j).trans hrest

/-- **A request.** A request that calls a loop gives the sum. -/
theorem step_sums (h : l.On m) (hn : 0 ≤ n) (hdepth : m.thread.depth = 0)
    (hmax : 1 ≤ m.world.config.maxCallDepth)
    (hlive : (⟨0, l.layout.params⟩ : View).live m = l.args n acc)
    (hroom : l.layout.params ≤ m.thread.stack.capacity) : ∃ x y,
      x.capacity = Stack.grown l.layout.slots m.thread.stack.capacity ∧
      ∀ (r : Runner F S) fuel, n.toInt.toNat + 8 ≤ fuel → r.Shallow fuel →
        Machine.step r fuel (.call ⟨0, l.layout.params⟩ (.fn l.entry)) m =
          .ok () ((m.restack x y).withResults [.int (acc + n)]) := by
  have hint : n.toInt = n.toInt.toNat := by
    have hnonneg := Int64.le_iff_toInt_le.1 hn
    exact (Int.toNat_of_nonneg hnonneg).symm
  obtain ⟨x, y, hx, hinvoke⟩ := invoke_proceeds h hn hdepth hmax hlive hroom
  obtain ⟨x', y', hx', hrest⟩ := drain_hops (m := m.restack x y) (h.congr rfl rfl) hint
    hdepth hmax (by rw [restack_stack, hx]; exact Stack.le_grown ..) acc
  refine ⟨x', y', hx'.trans hx, fun r fuel hfuel hr => ?_⟩
  exact (bind_of_ok (hinvoke r fuel (by omega) hr)).trans
    (hrest r fuel fuel (by omega) hr (by omega))

end TailLoop

/-- **Tail loops run in constant space.** Called from outside with a count and an accumulator, each
of the three loops gives their sum, with one call in progress at most. Afterwards no call is in
progress, no object and no global has changed, and the stack has kept its capacity if there was
room for one frame, which takes 5 slots at most, and else has one that does not depend on the
count. -/
theorem tail_loops_run {l : TailLoop} (h : l.On m) (hdepth : m.thread.depth = 0)
    (hmax : 1 ≤ m.world.config.maxCallDepth) (hn : 0 ≤ n) (acc : Int64) {fuel : Nat}
    (hfuel : n.toInt.toNat + 9 ≤ fuel) : ∃ t, m.Unwritten t ∧ t.thread.depth = 0 ∧
      t.thread.stack.capacity = (if l.layout.slots ≤ m.thread.stack.capacity then
        m.thread.stack.capacity else 16) ∧
      (5 ≤ m.thread.stack.capacity → t.thread.stack.capacity = m.thread.stack.capacity) ∧
      callFromOutside (perform fuel) (.fn l.entry) (l.args n acc) m = .ok [.int (acc + n)] t ∧
      ∀ alarm, callFromOutside ((Watch.shallow alarm).perform fuel []) (.fn l.entry) (l.args n acc)
        m = .ok [.int (acc + n)] t := by
  obtain ⟨fuel, rfl⟩ := Nat.exists_eq_add_one_of_ne_zero (Nat.ne_zero_of_lt hfuel)
  obtain ⟨x, hcall⟩ := callFromOutside_eq (.fn l.entry) (l.args n acc) m
  let u := m.restack (View.root.load m.thread.stack (l.args n acc)).2 x
  have hlive : (⟨0, l.layout.params⟩ : View).live u = l.args n acc := by
    rw [← l.length_args n acc]
    exact View.live_load .root m x
  have hloaded : u.thread.stack.capacity = Stack.grown l.layout.params m.thread.stack.capacity := by
    rw [← l.length_args n acc, ← Nat.zero_add (l.args n acc).length]
    exact View.capacity_load ..
  obtain ⟨s, y, hs, hstep⟩ := TailLoop.step_sums (m := u) (h.congr rfl rfl) hn hdepth hmax hlive
    (hloaded ▸ Stack.le_grown ..)
  obtain ⟨hparams, hslots⟩ := l.layout_slots
  rw [hloaded, Stack.grown_grown hparams (by omega)] at hs
  have hends : ∀ r : Runner F S, r.Shallow fuel → callFromOutside (step r fuel) (.fn l.entry)
      (l.args n acc) m = .ok [.int (acc + n)] (u.restack s y).emptied := by
    intro r hr
    have hstep := hstep r fuel (by omega) hr
    rw [← l.length_args n acc] at hstep
    exact (hcall _).trans ((congrArg outcomeOf hstep).trans (outcomeOf_values rfl))
  exact ⟨(u.restack s y).emptied, ⟨rfl, rfl, rfl⟩, hdepth, hs,
    fun hroom => hs.trans (if_pos (hslots.trans hroom)), hends _ (runner_shallow fuel _),
    fun alarm => hends _ (Watch.shallow_runner alarm _ _ fuel)⟩

/-- Two functions call each other where no more than one call may be in progress. -/
theorem tail_loops_run_bouncing :
    let m : Machine Empty PUnit :=
      start (⟨#[], #[], #[.routine .bounce, .routine .bounce], #[]⟩ : Heap Empty) ⟨1, 0, 0⟩ none ⟨⟩
    let args : List Val := [.fn ⟨0⟩, .fn ⟨1⟩, .int 7, .int 3]
    (TailLoop.bounce ⟨0⟩ ⟨1⟩).On m ∧ m.thread.depth = 0 ∧ 1 ≤ m.world.config.maxCallDepth ∧
      (0 : Int64) ≤ 7 ∧ ∃ t, m.Unwritten t ∧ t.thread.depth = 0 ∧ t.thread.stack.capacity = 16 ∧
        (5 ≤ m.thread.stack.capacity → t.thread.stack.capacity = m.thread.stack.capacity) ∧
        callFromOutside (perform 20) (.fn ⟨0⟩) args m = .ok [.int 10] t ∧
        ∀ alarm, callFromOutside ((Watch.shallow alarm).perform 20 []) (.fn ⟨0⟩) args m =
          .ok [.int 10] t := by
  intro m args
  have hon : (TailLoop.bounce ⟨0⟩ ⟨1⟩).On m := ⟨rfl, rfl⟩
  refine ⟨hon, rfl, by decide, by decide, ?_⟩
  exact tail_loops_run (n := 7) hon rfl (by decide) (by decide) 3 (show _ ≤ 20 by decide)

end Calls

end ScriptCore
