import ScriptCore.Proofs.CallOutcomes
import ScriptCore.Proofs.EchoRounds
import ScriptCore.Proofs.RetainedObjects
import ScriptCore.Report

/-!
# Runs of scenarios

Every scenario has one outcome under given limits: its expected value, if there is room for the
calls that it nests, and else a stack overflow (`Scenario.outcome`).

1. `Prepared.Ready` says which objects a job relies on. A prepared job is ready, and stays so while
   what the machine has and owns is retained (`prepareAll_ready`, `Prepared.Ready.retained`).
2. A run of a ready job on an idle machine has the outcome of its scenario, and leaves the machine
   idle: it writes to the globals and to coroutines of its own at most (`Prepared.Ready.comes`).
   This also holds of runs that fail.
3. So by induction runs in a row have the outcomes that they have alone, and a report on some runs
   of a scenario does not depend on what was run before, and on the number of its runs only by the
   count (`runs_in_a_row`, `make_report`).
-/

namespace ScriptCore

open Machine

variable {F S : Type}

/-! ## Outcomes -/

namespace Scenario

/-- How many calls of a run are in progress at once. -/
def nesting : Scenario → Nat
  | .recurseFixed | .recursePacked | .recurseProto => 21
  | .tailCall | .selfTailCall | .tailChain | .coroutinePingPong => 1
  | .sharedStack | .metaAdd => 2

/-- The numbers of slots that a run provides on the stack, one after the other. -/
def needs : Scenario → List Nat
  | .recurseFixed => 2 :: descent 2 2 20 0
  | .recursePacked => 2 :: descent 0 0 20 0
  | .recurseProto => 2 :: descent 5 3 20 0
  | .tailCall => [4, 4]
  | .selfTailCall => [2, 5]
  | .tailChain => [3, 3]
  | .sharedStack => [1, 6]
  | .coroutinePingPong => [1]
  | .metaAdd => [1, 5, 7]

variable (s : Scenario) (config : Config)

/-- The value of a run, or why it is no success. -/
def outcome : Except RunError Val :=
  if s.nesting ≤ config.maxCallDepth then .ok (.int s.expected)
  else .error (.failed s.key (.stackOverflow config.maxCallDepth))

theorem map_outcome (n : Nat) :
    ((s.outcome config).map (⟨·, n⟩)).map RunResult.value = s.outcome config := by
  cases s.outcome config <;> rfl

/-- The report on `k` runs. -/
def report (k : Nat) : Report :=
  if s.nesting ≤ config.maxCallDepth then
    ⟨s.key, s.title, k, some (Integer.text s.expected),
      Stack.grownAll s.needs config.initialStackSlots, none⟩
  else
    ⟨s.key, s.title, 0, none, config.initialStackSlots,
      some (s!"scenario '{s.key}' failed: " ++
        s!"stack overflow (call depth {config.maxCallDepth})")⟩

end Scenario

/-! ## Runs of jobs -/

namespace Machine

/-- A run leaves the objects that were there, but for globals, and no call is in progress that was
not before. -/
structure Leaves (m t : Machine F S) : Prop where
  retains : m.Retains t
  world : t.world = m.world
  depth : t.thread.depth = m.thread.depth

namespace Leaves

variable {m u t : Machine F S}

theorem trans (h : m.Leaves u) (k : u.Leaves t) : m.Leaves t :=
  ⟨h.retains.trans k.retains, k.world.trans h.world, k.depth.trans h.depth⟩

theorem idle (h : m.Leaves t) (hm : m.Idle) : t.Idle where
  depth := h.depth.trans hm.depth
  globals := h.world ▸ Nat.lt_of_lt_of_le hm.globals h.retains.size

/-- A step that changes no object. -/
theorem of_channel (m : Machine F S) (x : Stack) (y : Option (Array TraceEvent)) (r : Results) :
    m.Leaves ((m.restack x y).withChannel r) := ⟨.of_eq rfl rfl rfl, rfl, rfl⟩

theorem of_beside (h : m.Beside t) (hdepth : t.thread.depth = m.thread.depth) : m.Leaves t where
  retains := by
    refine .of_eq ?_ ?_ (by rw [h.world]) <;> rw [← h.heap]
  world := h.world
  depth := hdepth

end Leaves

/-- A machine with another value of a global. -/
def withGlobal (m : Machine F S) (name : String) (v : Val) : Machine F S :=
  m.edited m.world.globals (·.insert (.str name) v) (.entry m.world.globals (.str name) v)

theorem leaves_withGlobal (m : Machine F S) (name : String) (v : Val) :
    m.Leaves (m.withGlobal name v) :=
  ⟨(Retains.refl m).edited (Retains.refl m).not_owns_globals _ _, rfl, rfl⟩

theorem getStr_withGlobal {m : Machine F S} (hm : m.Idle) (name : String) {v : Val}
    (hv : v ≠ .nil) :
    ((m.withGlobal name v).heap.table (m.withGlobal name v).world.globals).getStr name = v := by
  show ((m.withGlobal name v).heap.table m.world.globals).getStr name = v
  rw [withGlobal, table_edited _ _ hm.globals]
  exact Table.getStr_insert_self _ name hv

end Machine

/-- How a job ends that nests `calls` calls: with an integer, and then the stack has been grown by
given needs, or, without room for so many, with a stack overflow. -/
inductive Comes (m : Machine F S) (calls : Nat) (needs : List Nat) (v : Int64) :
    EStateM.Result Unwind (Machine F S) Val → Prop
  | value (hroom : calls ≤ m.world.config.maxCallDepth) (t : Machine F S) (ht : m.Leaves t)
    (hcapacity : t.thread.stack.capacity = Stack.grownAll needs m.thread.stack.capacity) :
    Comes m calls needs v (.ok (.int v) t)
  | full (hfull : m.world.config.maxCallDepth < calls) (t : Machine F S) (ht : m.Leaves t) :
    Comes m calls needs v (.error (.fault (.stackOverflow m.world.config.maxCallDepth)) t)

/-- A call from outside stages its arguments and makes a request. -/
theorem callForOne_comes {m : Machine F S} {P : Perform F S} {target : Val} (args : List Val)
    {calls : Nat} {needs : List Nat} {v : Int64}
    (h : ∀ s t, (⟨0, args.length⟩ : View).live (m.restack s t) = args →
      Nests (m.restack s t) calls needs v
        (P (.call ⟨0, args.length⟩ target) (m.restack s t))) :
    Comes m calls (args.length :: needs) v (callForOne P target args m) := by
  obtain ⟨x, hcall⟩ := callFromOutside_eq target args m
  have hloaded := View.capacity_load .root m.thread.stack args
  have hnests := h (View.root.load m.thread.stack args).2 x (View.live_load .root m x)
  generalize (View.root.load m.thread.stack args).2 = s at hcall hloaded hnests
  rw [show View.root.base + args.length = args.length from Nat.zero_add _] at hloaded
  have hcall := hcall P
  generalize P (.call ⟨0, args.length⟩ target) (m.restack s x) = r at hcall hnests
  cases hnests with
  | value hroom x' y' hcapacity =>
    have hone : callForOne P target args m =
        .ok (.int v) ((m.restack x' y').withChannel .empty) :=
      bind_of_ok (hcall.trans (outcomeOf_values rfl))
    rw [hone]
    rw [restack_stack, hloaded] at hcapacity
    exact Comes.value (m := m) hroom _ (.of_channel m x' y' _) hcapacity
  | full hfull x' y' c =>
    have hone : callForOne P target args m = .error _ ((m.restack x' y').withChannel c) :=
      bind_of_error hcall
    rw [hone]
    exact Comes.full (m := m) hfull _ (.of_channel m x' y' c)

section Jobs

variable [HostBody F S] {m u : Machine F S} {f g : FnId}

omit [HostBody F S] in
/-- A job may set a global before it calls. -/
theorem call_comes {P : Perform F S} {target x : Val} {args : List Val} {name : String}
    {calls : Nat} {needs : List Nat} {v : Int64}
    (h : Comes (m.withGlobal name x) calls needs v
      (callForOne P target args (m.withGlobal name x))) :
    Comes m calls needs v (runJob P (.call target args [(name, x)]) m) := by
  have hu := leaves_withGlobal m name x
  have hset : setGlobals [(name, x)] m = .ok () (m.withGlobal name x) :=
    bind_of_ok (m.setField_eq ..)
  rw [show runJob P (.call target args [(name, x)]) m = _ from bind_of_ok hset]
  generalize callForOne P target args (m.withGlobal name x) = r at h
  cases h with
  | value hroom t ht hcapacity => exact Comes.value (m := m) hroom t (hu.trans ht) hcapacity
  | full hfull t ht => exact Comes.full (m := m) hfull t (hu.trans ht)

/-- The fuel of a program is more than its scenarios use. -/
theorem ample_eq : ∃ k, ample = k + 2 ∧ 2000000 ≤ k := ⟨ample - 2, by decide, by decide⟩

theorem counts_come (hf : (m.heap.function f).Recurses) (hm : m.Idle) :
    let spans := (m.heap.function f).spans
    Comes m 21 (2 :: descent spans.1 spans.2 20 0) 120
      (runJob carryOut (Scenario.selfCall (.fn f) Scenario.recursionDepth) m) := by
  intro spans
  obtain ⟨k, hk, hlarge⟩ := ample_eq
  refine callForOne_comes (P := carryOut) [.fn f, .int 20] fun s t hlive => ?_
  exact nests_of_counts (m := m.restack s t) (n := 20) hf (by decide) hm.depth hlive
    (by rw [hk]; show 20 + 12 ≤ _; omega)

theorem loops_come {l : TailLoop} (h : l.On m) (hm : m.Idle) {n : Int64} (hn : 0 ≤ n)
    (hfuel : n.toInt.toNat ≤ 1000000) (acc : Int64) :
    Comes m 1 [l.layout.params, l.layout.slots] (acc + n)
      (callForOne carryOut (.fn l.entry) (l.args n acc) m) := by
  obtain ⟨k, hk, hlarge⟩ := ample_eq
  rw [← l.length_args n acc]
  refine callForOne_comes _ fun s t hlive => ?_
  unfold carryOut
  rw [l.length_args] at hlive ⊢
  rw [hk]
  exact TailLoop.nests (m := m.restack s t) (h.congr rfl rfl) hn hm.depth acc hlive (by omega)

theorem sums_come (hf : m.heap.function f = .routine (.sharedSum (.fn g)))
    (hg : m.heap.function g = .builtin .add3) (hm : m.Idle) :
    Comes m 2 [1, 6] (partialSum 1000)
      (callForOne carryOut (.fn f) [.int Scenario.sharedStackCalls] m) := by
  obtain ⟨k, hk, hlarge⟩ := ample_eq
  refine callForOne_comes [.int 1000] fun s t hlive => ?_
  have hfits : Fits 1000 := by
    show triangle 1000 < 2 ^ 63
    decide
  unfold carryOut
  rw [hk]
  exact nests_of_sums (m := m.restack s t) hf hg (by decide) hfits hm.depth hlive
    (show 1000 + 2 ≤ k + 1 by omega)

theorem adds_come {c d : TableId} {counter metatable : Table}
    (hf : m.Has f (.closure Bodies.metaAdd #[])) (hg : m.Has g (.builtin .counterAdd))
    (hc : m.Owns c counter) (hd : m.Owns d metatable) (hmeta : counter.metatable = some d)
    (hadd : metatable.getStr Event.add.key = .fn g) (hm : m.Idle) :
    Comes m 2 [1, 5, 7] Scenario.metaAddIterations
      (runJob carryOut (.call (.fn f) [.int Scenario.metaAddIterations]
        [("counter", .table c)]) m) := by
  obtain ⟨k, hk, hlarge⟩ := ample_eq
  let u := m.withGlobal "counter" (.table c)
  have hu : m.Leaves u := leaves_withGlobal ..
  have hh : u.handler? (.table c) .add = some (.fn g) := by
    have hc' := (hu.retains.tables c counter hc).table_eq
    have hd' := (hu.retains.tables d metatable hd).table_eq
    unfold handler? metatable?
    dsimp only
    rw [hc', hmeta]
    show (if ((u.heap.table d).getStr Event.add.key).isNil then none else _) = _
    rw [hd', hadd]
    rfl
  have hglobal : u.global? (.str "counter") = some (.table c) := by
    have hget := getStr_withGlobal hm "counter" (v := .table c) nofun
    show (if ((u.heap.table u.world.globals).getStr "counter").isNil then none else _) = _
    exact (if_neg (by rw [hget]; exact Bool.false_ne_true)).trans (congrArg some hget)
  refine call_comes (callForOne_comes [.int 1000] fun s t hlive => ?_)
  unfold carryOut
  rw [hk]
  exact nests_of_adds (m := u.restack s t) (n := 1000) (hu.retains.functions f _ hf).function_eq
    (hu.retains.functions g _ hg).function_eq hh hglobal (by decide) (hu.idle hm).depth hlive
    (show 6 * 1000 + 9 ≤ k + 1 by omega)

theorem rounds_come (hf : m.heap.function f = .routine .echo) (hm : m.Idle) {rounds : Nat}
    (hpos : 0 < rounds) :
    Comes m 1 [1] (.ofNat rounds) (runJob carryOut (.pingPong (.fn f) rounds) m) := by
  obtain ⟨k, hk, hlarge⟩ := ample_eq
  obtain ⟨j, rfl⟩ := Nat.exists_eq_add_of_le' hpos
  let co : CoId := ⟨m.heap.coroutines.size⟩
  let u := m.withCoroutine (.fn f)
  have hco : u.heap.coroutine co = .fresh (.fn f) :=
    (coroutine_withCoroutine ..).trans (if_pos rfl)
  have hrun : runJob carryOut (.pingPong (.fn f) (j + 1)) m =
      pingPong carryOut co (j + 1) (.int 0) u := rfl
  rw [hrun]
  unfold carryOut
  rw [hk]
  have hu : m.Beside u := ⟨rfl, rfl, rfl⟩
  rcases Nat.eq_zero_or_pos m.world.config.maxCallDepth with hnone | hroom
  · obtain ⟨t, hrounds, ht, hdepth⟩ := pingPong_full (m := u) hco
      (show m.world.config.maxCallDepth ≤ m.thread.depth by omega) (.int 0) j (k + 1)
    have hzero : u.thread.depth = m.world.config.maxCallDepth := hm.depth.trans hnone.symm
    rw [hzero] at hrounds
    rw [hrounds]
    exact .full (by omega) t (.of_beside (hu.trans ht) hdepth)
  · obtain ⟨t, hrounds, ht⟩ := pingPong_counts (m := u) hf (hco ▸ EchoWaits.fresh)
      (show m.thread.depth < m.world.config.maxCallDepth by rw [hm.depth]; exact hroom) 0 j k
    rw [Int64.zero_add] at hrounds
    rw [hrounds]
    exact .value hroom t (.of_beside (hu.trans ht.beside) ht.depth) ht.capacity

end Jobs

/-! ## Jobs that are ready -/

open Scenario in
/-- A machine has the objects of the job of a prepared scenario. -/
inductive Prepared.Ready (m : Machine F S) : Prepared → Prop
  | recurseFixed (f : FnId) (hf : m.Has f (.routine (.recurse false))) :
    Ready m ⟨.recurseFixed, selfCall (.fn f) recursionDepth⟩
  | recursePacked (f : FnId) (hf : m.Has f (.routine (.recurse true))) :
    Ready m ⟨.recursePacked, selfCall (.fn f) recursionDepth⟩
  | recurseProto (f : FnId) (hf : m.Has f (.closure Bodies.recurse #[])) :
    Ready m ⟨.recurseProto, selfCall (.fn f) recursionDepth⟩
  | tailCall (f g : FnId) (hf : m.Has f (.routine .bounce)) (hg : m.Has g (.routine .bounce)) :
    Ready m ⟨.tailCall, .call (.fn f) [.fn f, .fn g, .int tailIterations, .int 0] []⟩
  | selfTailCall (f : FnId) (hf : m.Has f (.closure Bodies.count #[])) :
    Ready m ⟨.selfTailCall, .call (.fn f) [.int tailIterations, .int 0] [("count", .fn f)]⟩
  | tailChain (f : FnId) (hf : m.Has f (.routine .tailStep)) :
    Ready m ⟨.tailChain, .call (.fn f) [.fn f, .int tailChainDepth, .int 0] []⟩
  | sharedStack (f g : FnId) (hf : m.Has f (.routine (.sharedSum (.fn g))))
    (hg : m.Has g (.builtin .add3)) :
    Ready m ⟨.sharedStack, .call (.fn f) [.int sharedStackCalls] []⟩
  | coroutinePingPong (f : FnId) (hf : m.Has f (.routine .echo)) :
    Ready m ⟨.coroutinePingPong, .pingPong (.fn f) pingPongRounds⟩
  | metaAdd (f g : FnId) (c d : TableId) (counter metatable : Table)
    (hf : m.Has f (.closure Bodies.metaAdd #[])) (hg : m.Has g (.builtin .counterAdd))
    (hc : m.Owns c counter) (hd : m.Owns d metatable) (hmeta : counter.metatable = some d)
    (hadd : metatable.getStr Event.add.key = .fn g) :
    Ready m ⟨.metaAdd, .call (.fn f) [.int metaAddIterations] [("counter", .table c)]⟩

namespace Prepared.Ready

variable {m t : Machine F S} {p : Prepared}

/-- A job stays ready while its objects are retained. -/
theorem retained (h : p.Ready m) (ht : m.Retains t) : p.Ready t := by
  have hfn := ht.functions
  cases h with
  | recurseFixed f hf => exact .recurseFixed f (hfn _ _ hf)
  | recursePacked f hf => exact .recursePacked f (hfn _ _ hf)
  | recurseProto f hf => exact .recurseProto f (hfn _ _ hf)
  | tailCall f g hf hg => exact .tailCall f g (hfn _ _ hf) (hfn _ _ hg)
  | selfTailCall f hf => exact .selfTailCall f (hfn _ _ hf)
  | tailChain f hf => exact .tailChain f (hfn _ _ hf)
  | sharedStack f g hf hg => exact .sharedStack f g (hfn _ _ hf) (hfn _ _ hg)
  | coroutinePingPong f hf => exact .coroutinePingPong f (hfn _ _ hf)
  | metaAdd f g c d counter metatable hf hg hc hd hmeta hadd =>
    exact .metaAdd f g c d counter metatable (hfn _ _ hf) (hfn _ _ hg) (ht.tables _ _ hc)
      (ht.tables _ _ hd) hmeta hadd

variable [HostBody F S]

/-- **A run of a job** has the expected value, or overflows the stack. -/
theorem comes (h : p.Ready m) (hm : m.Idle) :
    Comes m p.scenario.nesting p.scenario.needs p.scenario.expected (runJob carryOut p.job m) := by
  cases h with
  | recurseFixed f hf =>
    have hrec := counts_come (by rw [hf.function_eq]; exact .fixed) hm
    rwa [hf.function_eq] at hrec
  | recursePacked f hf =>
    have hrec := counts_come (by rw [hf.function_eq]; exact .packed) hm
    rwa [hf.function_eq] at hrec
  | recurseProto f hf =>
    have hrec := counts_come (by rw [hf.function_eq]; exact .compiled _) hm
    rwa [hf.function_eq] at hrec
  | tailCall f g hf hg =>
    exact loops_come (l := .bounce f g) ⟨hf.function_eq, hg.function_eq⟩ hm
      (n := Scenario.tailIterations) (by decide) (by decide) 0
  | selfTailCall f hf =>
    have hu := leaves_withGlobal m "count" (.fn f)
    have hon : (TailLoop.count f).On (m.withGlobal "count" (.fn f)) :=
      ⟨⟨#[], (hu.retains.functions f _ hf).function_eq⟩, getStr_withGlobal hm "count" nofun⟩
    exact call_comes (loops_come hon (hu.idle hm) (n := Scenario.tailIterations) (by decide)
      (by decide) 0)
  | tailChain f hf =>
    exact loops_come (l := .step f) hf.function_eq hm (n := Scenario.tailChainDepth)
      (by decide) (by decide) 0
  | sharedStack f g hf hg => exact sums_come hf.function_eq hg.function_eq hm
  | coroutinePingPong f hf => exact rounds_come hf.function_eq hm (by decide)
  | metaAdd f g c d counter metatable hf hg hc hd hmeta hadd =>
    exact adds_come hf hg hc hd hmeta hadd hm

end Prepared.Ready

/-! ## Runs in a row -/

section Rows

variable [HostBody F S] {m : Machine F S} {p : Prepared} {config : Config}

/-- **A run** has the outcome of its scenario. -/
theorem runPrepared_eq (h : p.Ready m) (hm : m.Idle) : ∃ t, m.Leaves t ∧
    (p.scenario.nesting ≤ m.world.config.maxCallDepth → t.thread.stack.capacity =
      Stack.grownAll p.scenario.needs m.thread.stack.capacity) ∧
    runPrepared carryOut p m =
      .ok ((p.scenario.outcome m.world.config).map (⟨·, t.thread.stack.capacity⟩)) t := by
  have hcomes := h.comes hm
  have hrun : ∀ r, runJob carryOut p.job m = r → runPrepared carryOut p m = _ :=
    fun r hr => (attempt_bind ..).trans (by rw [hr])
  generalize runJob carryOut p.job m = r at hcomes hrun
  have hrun := hrun r rfl
  rw [hrun]
  unfold Scenario.outcome
  cases hcomes with
  | value hroom t ht hcapacity =>
    refine ⟨t, ht, fun _ => hcapacity, ?_⟩
    have hequal : (Val.int p.scenario.expected).rawEq (.int p.scenario.expected) = true :=
      beq_self_eq_true _
    dsimp only
    rw [if_pos hequal, if_pos hroom]
    rfl
  | full hfull t ht =>
    refine ⟨t, ht, fun hroom => absurd hroom (Nat.not_le.2 hfull), ?_⟩
    rw [if_neg (Nat.not_le.2 hfull)]
    rfl

/-- **Runs in a row** have the outcomes that they have alone. The induction is on the list. -/
theorem runs_in_a_row (ps : List Prepared) (hready : ∀ p ∈ ps, p.Ready m) (hm : m.Idle) :
    ∃ results t, ps.mapM (runPrepared carryOut) m = .ok results t ∧
      results.map (Except.map RunResult.value) =
        ps.map fun p => p.scenario.outcome m.world.config := by
  induction ps generalizing m with
  | nil => exact ⟨[], m, rfl, rfl⟩
  | cons p ps ih =>
    obtain ⟨u, hu, -, hrun⟩ := runPrepared_eq (hready p List.mem_cons_self) hm
    obtain ⟨results, t, hrest, hvalues⟩ := ih
      (fun q hq => (hready q (List.mem_cons_of_mem p hq)).retained hu.retains) (hu.idle hm)
    let first : Except RunError RunResult :=
      (p.scenario.outcome m.world.config).map (⟨·, u.thread.stack.capacity⟩)
    refine ⟨first :: results, t, ?_, ?_⟩
    · rw [List.mapM_cons]
      exact (bind_of_ok hrun).trans (bind_of_ok hrest)
    · rw [List.map_cons, List.map_cons, Scenario.map_outcome, hvalues, hu.world]

/-! ## Reports -/

/-- Runs that succeed are counted. The stack has grown in the first of them, and has then the room
of all. -/
theorem repeatRun_counts (h : p.Ready m) (hm : m.Idle)
    (hroom : p.scenario.nesting ≤ m.world.config.maxCallDepth) (r : Report) (n : Nat) :
    ∃ t, m.Leaves t ∧ Report.repeatRun carryOut p r (n + 1) m =
      .ok { r with
        iterations := r.iterations + (n + 1)
        value := some (Integer.text p.scenario.expected)
        stackSlots := Stack.grownAll p.scenario.needs m.thread.stack.capacity } t := by
  induction n generalizing m r with
  | zero =>
    obtain ⟨u, hu, hcapacity, hrun⟩ := runPrepared_eq h hm
    rw [Scenario.outcome, if_pos hroom, hcapacity hroom] at hrun
    exact ⟨u, hu, bind_of_ok hrun⟩
  | succ n ih =>
    -- The runs that follow find a stack with room for all that they need.
    obtain ⟨u, hu, hcapacity, hrun⟩ := runPrepared_eq h hm
    rw [Scenario.outcome, if_pos hroom, hcapacity hroom] at hrun
    obtain ⟨t, ht, hrest⟩ := ih (h.retained hu.retains) (hu.idle hm) (hu.world ▸ hroom)
      { r with
        iterations := r.iterations + 1
        value := some (Integer.text p.scenario.expected)
        stackSlots := Stack.grownAll p.scenario.needs m.thread.stack.capacity }
    rw [hcapacity hroom, Stack.grownAll_grownAll] at hrest
    refine ⟨t, hu.trans ht, (bind_of_ok hrun).trans (hrest.trans ?_)⟩
    rw [Nat.add_assoc, Nat.add_comm 1]

/-- The first run that is no success is the last one. -/
theorem repeatRun_fails (h : p.Ready m) (hm : m.Idle)
    (hfull : m.world.config.maxCallDepth < p.scenario.nesting) (r : Report) (n : Nat) :
    ∃ t, m.Leaves t ∧ Report.repeatRun carryOut p r (n + 1) m =
      .ok { r with error := some (s!"scenario '{p.scenario.key}' failed: " ++
        s!"stack overflow (call depth {m.world.config.maxCallDepth})") } t := by
  obtain ⟨u, hu, -, hrun⟩ := runPrepared_eq h hm
  rw [Scenario.outcome, if_neg (Nat.not_le.2 hfull)] at hrun
  exact ⟨u, hu, bind_of_ok hrun⟩

/-- **A report** on runs of a scenario is the one of the scenario. -/
theorem make_report (h : p.Ready m) (config : Config) {k : Nat} (hk : 1 ≤ k) : ∃ t, m.Retains t ∧
    Report.make carryOut config p k m = .ok (p.scenario.report config k) t := by
  obtain ⟨n, rfl⟩ := Nat.exists_eq_add_of_le' hk
  obtain ⟨u, hrestart, hu⟩ := m.restart_renews config
  obtain ⟨a, v, hinstall, hv⟩ := hu.installed
  have hready := h.retained hv.retains
  let r : Report :=
    ⟨p.scenario.key, p.scenario.title, 0, none, v.thread.stack.capacity, none⟩
  have hmake : Report.make carryOut config p (n + 1) m =
      Report.repeatRun carryOut p r (n + 1) v :=
    (bind_of_ok hrestart).trans (bind_of_ok hinstall)
  rw [hmake, Scenario.report]
  by_cases hroom : p.scenario.nesting ≤ config.maxCallDepth
  · obtain ⟨t, ht, hrepeat⟩ := repeatRun_counts hready hv.idle (hv.config_eq ▸ hroom) r n
    rw [hv.capacity, Nat.zero_add] at hrepeat
    rw [if_pos hroom]
    exact ⟨t, hv.retains.trans ht.retains, hrepeat⟩
  · obtain ⟨t, ht, hrepeat⟩ :=
      repeatRun_fails hready hv.idle (hv.config_eq ▸ Nat.not_le.1 hroom) r n
    rw [hv.config_eq] at hrepeat
    rw [if_neg hroom, ← hv.capacity]
    exact ⟨t, hv.retains.trans ht.retains, hrepeat⟩

end Rows

/-! ## Preparation -/

/-- The table with a handler is owned, and so is its metatable. -/
theorem counterObject_ready (m : Machine F S)
    (hglobals : m.world.globals.index < m.heap.tables.size) :
    ∃ g c d counter metatable t, Scenario.counterObject m = .ok (.table c) t ∧ m.Retains t ∧
      t.world = m.world ∧ t.Has g (.builtin .counterAdd) ∧ t.Owns c counter ∧
      t.Owns d metatable ∧ counter.metatable = some d ∧
      metatable.getStr Event.add.key = .fn g := by
  let d : TableId := ⟨m.heap.tables.size⟩
  let g : FnId := ⟨m.heap.functions.size⟩
  let u := m.tabled.pushed (.builtin .counterAdd)
  have hu : m.Retains u := m.retains_tabled.trans (m.tabled.retains_pushed _)
  have hd : u.Owns d .empty := (m.tabled.retains_pushed _).tables d _ (m.owns_tabled hglobals)
  have hg : u.Has g (.builtin .counterAdd) := m.tabled.has_pushed _
  let v := u.edited d (·.insert (.str Event.add.key) (.fn g))
    (.entry d (.str Event.add.key) (.fn g))
  have hv : m.Retains v := hu.edited (Retains.refl m).not_owns_new _ _
  have hin : v.world.globals.index < v.heap.tables.size := Nat.lt_of_lt_of_le hglobals hv.size
  let c : TableId := ⟨v.heap.tables.size⟩
  let t := v.tabled.edited c (fun t => { t with metatable := some d }) (.metatable c (some d))
  have ht : v.Retains t := v.retains_tabled.edited (Retains.refl v).not_owns_new _ _
  have hobject : Scenario.counterObject m = .ok (.table c) t := by
    have hfield : setField d Event.add.key (.fn g) u = .ok () v := u.setField_eq ..
    have hmeta : setMetatable c (some d) v.tabled = .ok () t := v.tabled.setMetatable_eq ..
    have hmetatable : (newTable : M F S TableId) m = .ok d m.tabled := rfl
    have hhandler : (newFunctionVal (.builtin .counterAdd) : M F S Val) m.tabled = .ok (.fn g) u :=
      rfl
    have hcounter : (newTable : M F S TableId) v = .ok c v.tabled := rfl
    refine (bind_of_ok hmetatable).trans ((bind_of_ok hhandler).trans ?_)
    exact (bind_of_ok hfield).trans ((bind_of_ok hcounter).trans (bind_of_ok hmeta))
  exact ⟨g, c, d, _, _, t, hobject, hv.trans ht, rfl, ht.functions _ _ ⟨hg.1, hg.2⟩,
    owns_edited (v.owns_tabled hin) _ _, ht.tables _ _ (owns_edited hd _ _), rfl,
    Table.getStr_insert_self _ _ nofun⟩

/-- **Preparation** makes the objects that a job relies on. -/
theorem prepare_ready (s : Scenario) (m : Machine F S)
    (hglobals : m.world.globals.index < m.heap.tables.size) : ∃ job t, s.prepare m = .ok job t ∧
      m.Retains t ∧ t.world = m.world ∧ Prepared.Ready t ⟨s, job⟩ := by
  have hone : ∀ (u : Machine F S) c, u.Retains (u.pushed c) ∧
      (u.pushed c).Has ⟨u.heap.functions.size⟩ c := fun u c =>
    ⟨u.retains_pushed c, u.has_pushed c⟩
  cases s with
  | recurseFixed => exact ⟨_, _, rfl, (hone m _).1, rfl, .recurseFixed _ (hone m _).2⟩
  | recursePacked => exact ⟨_, _, rfl, (hone m _).1, rfl, .recursePacked _ (hone m _).2⟩
  | recurseProto => exact ⟨_, _, rfl, (hone m _).1, rfl, .recurseProto _ (hone m _).2⟩
  | tailCall =>
    obtain ⟨hfirst, hf⟩ := hone m (.routine .bounce)
    obtain ⟨hsecond, hg⟩ := hone (m.pushed (.routine .bounce)) (.routine .bounce)
    exact ⟨_, _, rfl, hfirst.trans hsecond, rfl, .tailCall _ _ (hsecond.functions _ _ hf) hg⟩
  | selfTailCall => exact ⟨_, _, rfl, (hone m _).1, rfl, .selfTailCall _ (hone m _).2⟩
  | tailChain => exact ⟨_, _, rfl, (hone m _).1, rfl, .tailChain _ (hone m _).2⟩
  | sharedStack =>
    obtain ⟨hfirst, hg⟩ := hone m (.builtin .add3)
    obtain ⟨hsecond, hf⟩ := hone (m.pushed (.builtin .add3)) (.routine (.sharedSum (.fn _)))
    exact ⟨_, _, rfl, hfirst.trans hsecond, rfl, .sharedStack _ _ hf (hsecond.functions _ _ hg)⟩
  | coroutinePingPong => exact ⟨_, _, rfl, (hone m _).1, rfl, .coroutinePingPong _ (hone m _).2⟩
  | metaAdd =>
    obtain ⟨hfirst, hf⟩ := hone m (.closure Bodies.metaAdd #[])
    obtain ⟨g, c, d, counter, metatable, t, hobject, ht, hworld, hg, hc, hd, hmeta, hadd⟩ :=
      counterObject_ready (m.pushed (.closure Bodies.metaAdd #[])) hglobals
    exact ⟨_, t, bind_of_ok hobject, hfirst.trans ht, hworld,
      .metaAdd _ g c d counter metatable (ht.functions _ _ hf) hg hc hd hmeta hadd⟩

theorem prepareAll_ready (scenarios : List Scenario) (m : Machine F S)
    (hglobals : m.world.globals.index < m.heap.tables.size) :
    ∃ jobs t, prepareAll scenarios m = .ok jobs t ∧ m.Retains t ∧
      jobs.map Prepared.scenario = scenarios ∧ ∀ p ∈ jobs, p.Ready t := by
  induction scenarios generalizing m with
  | nil => exact ⟨[], m, rfl, .refl m, rfl, nofun⟩
  | cons s rest ih =>
    obtain ⟨job, u, hprepare, hu, hworld, hready⟩ := prepare_ready s m hglobals
    obtain ⟨jobs, t, hrest, ht, hscenarios, hall⟩ :=
      ih u (by rw [hworld]; exact Nat.lt_of_lt_of_le hglobals hu.size)
    refine ⟨⟨s, job⟩ :: jobs, t, (bind_of_ok hprepare).trans (bind_of_ok hrest), hu.trans ht,
      congrArg (s :: ·) hscenarios, fun p hp => ?_⟩
    rcases List.mem_cons.1 hp with rfl | hp
    · exact hready.retained ht
    · exact hall p hp

/-! ## Repetition -/

section Repetition

variable [HostBody F S]

/-- Reports in a row. The induction is on the list. -/
theorem reports_in_a_row {m : Machine F S} (orders : List (Config × Prepared × Nat))
    (horders : ∀ o ∈ orders, o.2.1.Ready m ∧ 1 ≤ o.2.2) : ∃ t,
      (orders.mapM fun o => Report.make carryOut o.1 o.2.1 o.2.2) m =
        .ok (orders.map fun o => o.2.1.scenario.report o.1 o.2.2) t := by
  induction orders generalizing m with
  | nil => exact ⟨m, rfl⟩
  | cons o rest ih =>
    obtain ⟨hready, hk⟩ := horders o List.mem_cons_self
    obtain ⟨u, hu, hmake⟩ := make_report hready o.1 hk
    obtain ⟨t, hrest⟩ := ih fun q hq => by
      obtain ⟨hq', hk'⟩ := horders q (List.mem_cons_of_mem o hq)
      exact ⟨hq'.retained hu, hk'⟩
    refine ⟨t, ?_⟩
    rw [List.mapM_cons]
    exact (bind_of_ok hmake).trans (bind_of_ok hrest)

/-- Prepared scenarios on a machine whose outcomes do not depend on what is run before. -/
structure Repeats (m : Machine F S) (jobs : List Prepared) : Prop where
  /-- Reports in a row, each on one or more runs on a new state, are those of the scenarios. -/
  reports : ∀ orders : List (Config × Prepared × Nat), (∀ o ∈ orders, o.2.1 ∈ jobs ∧ 1 ≤ o.2.2) →
    ∃ t, (orders.mapM fun o => Report.make carryOut o.1 o.2.1 o.2.2) m =
      .ok (orders.map fun o => o.2.1.scenario.report o.1 o.2.2) t
  /-- A scenario alone on a new state has its outcome. -/
  alone : ∀ config modules, ∀ p ∈ jobs, ∃ result t,
    (do renew config modules; runPrepared carryOut p : M F S _) m = .ok result t ∧
      result.map RunResult.value = p.scenario.outcome config
  /-- So has each of some scenarios in a row on one new state. -/
  inARow : ∀ config modules (ps : List Prepared), (∀ p ∈ ps, p ∈ jobs) → ∃ results t,
    (do renew config modules; ps.mapM (runPrepared carryOut) : M F S _) m = .ok results t ∧
      results.map (Except.map RunResult.value) = ps.map fun p => p.scenario.outcome config

/-- **Repeating a scenario does not change its outcome.** Of scenarios that were prepared, every
report on `k` runs, where `k` is not 0, is the one of the scenario under the limits: with room for
its calls, `k` runs, the expected value, no error and the slots that one run takes; else no run, no
value and the words of a stack overflow. And any scenarios that are run in a row on one new state,
with the standard modules or without, have the values and the errors that they have alone. -/
theorem scenarios_repeat (scenarios : List Scenario) (m : Machine F S)
    (hglobals : m.world.globals.index < m.heap.tables.size) : ∃ jobs t,
      prepareAll scenarios m = .ok jobs t ∧ jobs.map Prepared.scenario = scenarios ∧
      Repeats t jobs := by
  obtain ⟨jobs, t, hprepare, -, hscenarios, hready⟩ := prepareAll_ready scenarios m hglobals
  refine ⟨jobs, t, hprepare, hscenarios, fun orders horders => ?_, fun config modules p hp => ?_,
    fun config modules ps hps => ?_⟩
  · exact reports_in_a_row orders fun o ho => ⟨hready _ (horders o ho).1, (horders o ho).2⟩
  · obtain ⟨u, hrenew, hu⟩ := t.renew_renews config modules
    obtain ⟨v, -, -, hrun⟩ := runPrepared_eq ((hready p hp).retained hu.retains) hu.idle
    rw [hu.config_eq] at hrun
    exact ⟨_, v, (bind_of_ok hrenew).trans hrun, Scenario.map_outcome ..⟩
  · obtain ⟨u, hrenew, hu⟩ := t.renew_renews config modules
    obtain ⟨results, v, hruns, hvalues⟩ :=
      runs_in_a_row ps (fun p hp => (hready p (hps p hp)).retained hu.retains) hu.idle
    exact ⟨results, v, (bind_of_ok hrenew).trans hruns, hu.config_eq ▸ hvalues⟩

/-- With room for five calls the recursion fails and the sum does not, how often and in whatever
order they are run. -/
theorem scenarios_repeat_five :
    let m : Machine Empty PUnit := start .empty .default none ⟨⟩
    let limits : Config := ⟨5, 0, 0⟩
    let overflow : RunError := .failed "recurse_fixed" (.stackOverflow 5)
    m.world.globals.index < m.heap.tables.size ∧ ∃ p q t,
      prepareAll [.recurseFixed, .sharedStack] m = .ok [p, q] t ∧
      (∃ u, ([(limits, p, 2), (limits, q, 3)].mapM fun o =>
          Report.make carryOut o.1 o.2.1 o.2.2) t =
        .ok [⟨"recurse_fixed", "Recursive call, fixed-arity entry", 0, none, 0,
            some "scenario 'recurse_fixed' failed: stack overflow (call depth 5)"⟩,
          ⟨"shared_stack", "Arguments staged in place on the shared stack", 3, some "500500", 16,
            none⟩] u) ∧
      ∃ results u,
        (do renew limits true; [p, q, p].mapM (runPrepared carryOut) : M Empty PUnit _) t =
          .ok results u ∧
        results.map (Except.map RunResult.value) =
          [.error overflow, .ok (.int 500500), .error overflow] := by
  intro m limits overflow
  have hglobals : m.world.globals.index < m.heap.tables.size := by decide
  obtain ⟨jobs, t, hprepare, hscenarios, hrepeats⟩ :=
    scenarios_repeat [.recurseFixed, .sharedStack] m hglobals
  obtain ⟨p, rest, rfl, hp, hrest⟩ := List.map_eq_cons_iff.1 hscenarios
  obtain ⟨q, rest, rfl, hq, hrest⟩ := List.map_eq_cons_iff.1 hrest
  obtain rfl := List.map_eq_nil_iff.1 hrest
  obtain ⟨u, hreport⟩ := hrepeats.reports [(limits, p, 2), (limits, q, 3)] (by simp)
  obtain ⟨results, v, hrun, hvalues⟩ := hrepeats.inARow limits true [p, q, p] (by simp)
  have hfirst : p.scenario.report limits 2 = ⟨"recurse_fixed",
      "Recursive call, fixed-arity entry", 0, none, 0,
      some "scenario 'recurse_fixed' failed: stack overflow (call depth 5)"⟩ := by
    rw [hp]
    cbv
  have hsecond : q.scenario.report limits 3 = ⟨"shared_stack",
      "Arguments staged in place on the shared stack", 3, some "500500", 16, none⟩ := by
    rw [hq]
    rfl
  refine ⟨hglobals, p, q, t, hprepare, ⟨u, ?_⟩, results, v, hrun, ?_⟩
  · rw [hreport, List.map_cons, List.map_cons, hfirst, hsecond]
    rfl
  · rw [hvalues, List.map_cons, List.map_cons, List.map_cons, hp, hq]
    rfl

end Repetition

end ScriptCore
