import ScriptCore.Proofs.Boundaries
import ScriptCore.Proofs.CoroutineOrder
import ScriptCore.Proofs.Isolation
import ScriptCore.Proofs.StagedSums

/-!
# Sums over staged calls that suspend

The callee of the summing body may also yield its three arguments, and return what its coroutine is
resumed with (`YieldsThree`). The yield saves the frame of the sum at the head of its loop.

1. From a head a call of the sum, or a replay of its link, suspends with what is staged, or returns
   the last partial sum (`SumStage`, `stage_of_head`). What the callee does on its window changes no
   slot below it, so the slots that are saved are those of the head.
2. A replay with the next partial sum comes to the next head (`stage_of_replay`).
3. So a coroutine over the sum that is resumed each time with the sum of what it has yielded goes
   from head to head as the plain calls do, up to the same result (`resumes_reach`, `staged_sums`).
-/

namespace ScriptCore

open Machine Interpreter Routine

variable {F S : Type}

/-! ## Callees that yield -/

/-- A later machine has the same objects, but for what coroutines are doing, and the same world. -/
structure Machine.Beside (m u : Machine F S) : Prop where
  heap : { u.heap with coroutines := m.heap.coroutines } = m.heap
  world : u.world = m.world
  host : u.host = m.host

namespace Machine.Beside

variable {m u t : Machine F S}

theorem refl (m : Machine F S) : m.Beside m := ⟨rfl, rfl, rfl⟩

theorem trans (h : m.Beside u) (k : u.Beside t) : m.Beside t where
  heap := by
    rw [← h.heap, ← k.heap]
  world := k.world.trans h.world
  host := k.host.trans h.host

theorem function_eq (h : m.Beside u) {f : FnId} : u.heap.function f = m.heap.function f := by
  rw [← h.heap]
  rfl

end Machine.Beside

/-- A yield can suspend, and there is room for some calls. -/
structure Machine.Within (room : Nat) (m : Machine F S) : Prop where
  current : m.thread.current.isSome
  boundaries : m.thread.boundaries = 0
  depth : m.thread.depth + room ≤ m.world.config.maxCallDepth

section Yields

variable [HostBody F S]

/-- A replay of some links with a value returns this value. -/
def Returns (m : Machine F S) (room fuel : Nat) (chain : List Link) : Prop :=
  ∀ u, m.Beside u → u.Within room → ∀ w v, ∃ x y,
    perform fuel (.replay chain [v] w) u = .ok () ((u.restack x y).withResults [v])

/-- A function yields its three arguments and returns what it is resumed with. -/
def YieldsThree (m : Machine F S) (room fuel : Nat) (g : Val) : Prop :=
  ∀ u, m.Beside u → u.Within room → ∀ w args, args.length = 3 → w.live u = args →
    ∃ chain x y r, Returns m room fuel chain ∧ perform fuel (.call w g) u =
      .error (.suspend ⟨args, chain⟩) ((u.restack x y).withChannel r)

/-- The yield of the library is such a function. -/
theorem yieldsThree_yield {m : Machine F S} {f : FnId} (hf : m.heap.function f = .builtin .yield)
    {fuel : Nat} (hfuel : 1 ≤ fuel) : YieldsThree m 1 fuel (.fn f) := by
  obtain ⟨fuel, rfl⟩ := Nat.exists_eq_add_of_le' hfuel
  intro u hu hroom w args _ hlive
  obtain ⟨y, hcall⟩ := yield_call (n := fuel) (hu.function_eq.trans hf) w
  refine ⟨[], u.thread.stack, y, u.thread.results, fun t ht _ w v => ?_, ?_⟩
  · exact ⟨t.thread.stack, t.trace, rfl⟩
  · have hdepth := hroom.depth
    have hcurrent : ¬ u.thread.current.isNone := by
      rw [Option.isNone_iff_eq_none]
      exact Option.isSome_iff_ne_none.1 hroom.current
    rw [hcall, if_neg (by omega), yieldValues_eq, if_neg hcurrent,
      if_neg (not_not_intro hroom.boundaries), ← hlive]
    rfl

end Yields

/-! ## Saved heads -/

/-- The first slots of a saved frame of the sum hold the argument, the count and the partial sum. -/
def Saved.AtCount (saved : Saved) (cells : Array Val) (n : Int64) (k : Nat) : Prop :=
  saved.slots.length = 6 ∧
    (saved.slots.map (Slot.read cells)).take 3 = [.int n, .int (.ofNat k), .int (partialSum k)]

section Heads

variable {s t : Active F S} {n : Int64} {k : Nat}

theorem Active.registers_snapshot (s : Active F S) : s.registers =
    (s.frame.view.snapshot s.machine.thread.stack s.frame.slots).map
      (Slot.read s.machine.heap.cells) := by
  refine List.ext_getElem (by simp [View.length_snapshot]) fun i hi hi' => ?_
  rw [getElem_registers]
  simp [View.snapshot, View.get]

/-- A frame is saved at its head. -/
theorem Active.AtCount.saved (h : s.AtCount n k) (f : FnId) :
    (linkOf f s.frame s.machine).saved.AtCount s.machine.heap.cells n k := by
  obtain ⟨hslots, hhead⟩ := h
  rw [registers_snapshot] at hhead
  exact ⟨(View.length_snapshot ..).trans hslots, hhead⟩

/-- A frame whose first three slots are those of another one is at the same head. -/
theorem Active.AtCount.congr (h : s.AtCount n k) (hslots : t.frame.slots = s.frame.slots)
    (hcells : t.machine.heap.cells = s.machine.heap.cells)
    (hkept : ∀ i < 3, t.frame.view.slot t.machine.thread.stack i =
      s.frame.view.slot s.machine.thread.stack i) : t.AtCount n k := by
  refine ⟨hslots.trans h.1, ?_⟩
  rw [← h.2]
  refine List.ext_getElem (by simp [hslots]) fun i hi hi' => ?_
  have hlt : i < 3 := by
    rw [List.length_take] at hi
    omega
  rw [List.getElem_take, List.getElem_take, getElem_registers, getElem_registers, View.get,
    View.get, hkept i hlt, hcells]

/-- A frame that is laid out from a saved head is at this head. -/
theorem Saved.AtCount.reopened {saved : Saved} {cells : Array Val} (h : saved.AtCount cells n k)
    (hslots : s.frame.slots = 6) (hcells : s.machine.heap.cells = cells)
    (hslot : ∀ i < 6, s.frame.view.slot s.machine.thread.stack i = saved.slots.getD i .nil) :
    s.AtCount n k := by
  refine ⟨hslots, ?_⟩
  rw [Active.registers_snapshot, hslots, View.snapshot_eq _ _ h.1 hslot, hcells]
  exact h.2

end Heads

/-! ## Stages -/

section Stages

variable [HostBody F S]

/-- How a run of the sum ends that has come to the head with a count: it is suspended there, with
the staged arguments as what is yielded, or returns the last partial sum. -/
inductive SumStage (m : Machine F S) (room fuel : Nat) (f : FnId) (n : Int64) (k : Nat)
    (u : Machine F S) : EStateM.Result Unwind (Machine F S) Unit → Prop
  | suspended (hk : k < n.toInt.toNat) (saved : Saved) (chain : List Link) (x : Stack)
    (y : Option (Array TraceEvent)) (r : Results) (hsaved : saved.AtCount u.heap.cells n k)
    (hchain : Returns m room fuel chain) : SumStage m room fuel f n k u
      (.error (.suspend ⟨[.int (partialSum k), .int (.ofNat k), .int 1],
        ⟨f, 1, saved⟩ :: chain⟩) ((u.restack x y).withChannel r))
  | returned (hk : k = n.toInt.toNat) (x : Stack) (y : Option (Array TraceEvent)) :
    SumStage m room fuel f n k u (.ok () ((u.restack x y).withResults [.int (partialSum k)]))

namespace SumStage

variable {m u : Machine F S} {room fuel k : Nat} {f : FnId} {n : Int64}
  {r : EStateM.Result Unwind (Machine F S) Unit} {x : M F S Unit}

theorem restacked {s : Stack} {t : Option (Array TraceEvent)} {c : Results}
    (h : SumStage m room fuel f n k ((u.restack s t).withChannel c) r) :
    SumStage m room fuel f n k u r := by
  cases h with
  | suspended hk saved chain x y r hsaved hchain =>
    exact .suspended hk saved chain x y r hsaved hchain
  | returned hk x y => exact .returned hk x y

/-- The call of the sum is counted out. -/
theorem counted (h : SumStage m room fuel f n k (entered u) (x (entered u))) :
    SumStage m room fuel f n k u (ensuring x leave (entered u)) := by
  generalize hx : x (entered u) = r at h
  cases h with
  | suspended hk saved chain x y r hsaved hchain =>
    rw [ensuring_error hx]
    exact .suspended hk saved chain x y r hsaved hchain
  | returned hk x y =>
    rw [ensuring_ok hx]
    exact .returned hk x y

/-- A request ends as its call does, as there is no tail call to carry out. -/
theorem drained (h : SumStage m room fuel f n k u (x u)) (r : Runner F S) (w : View) (j : Nat) :
    SumStage m room fuel f n k u ((x >>= fun _ => drain r w (j + 1)) u) := by
  generalize hx : x u = e at h
  cases h with
  | suspended hk saved chain x y r hsaved hchain =>
    rw [bind_of_error hx]
    exact .suspended hk saved chain x y r hsaved hchain
  | returned hk x y =>
    rw [bind_of_ok hx, drain_values r w j rfl]
    exact .returned hk x y

end SumStage

variable [QuietHost F S] {m u : Machine F S} {room fuel k : Nat} {f : FnId} {v : Val} {n : Int64}

/-- **From a head.** What the callee does on its window leaves the head as it is. -/
theorem stage_of_head (hn : Fits n) (hv : YieldsThree m room fuel v) {s : Active F S}
    (h : s.AtCount n k) (hk : k ≤ n.toInt.toNat) (hs : m.Beside s.machine)
    (hroom : s.machine.Within room) (f : FnId) (j : Nat) :
    SumStage m room fuel f n k s.machine
      (leaveBody f (sumFrom (perform fuel) v n (j + 1) s)) := by
  by_cases hlast : n ≤ .ofNat k
  · rw [sumFrom_ends v h hlast]
    exact .returned ((hn.le_iff hk).1 hlast) s.machine.thread.stack s.machine.trace
  · have hlt : k < n.toInt.toNat := Nat.lt_of_le_of_ne hk (mt (hn.le_iff hk).2 hlast)
    obtain ⟨⟨g, t⟩, ht, hindex, hcount, hlive, hask⟩ := sumFrom_asks v h hlast
    obtain ⟨i, rfl : g = _⟩ := ht.frame
    obtain ⟨a, b, rfl : t = _⟩ := ht.machine
    obtain rfl : i = 1 := hindex
    let w : View := ⟨s.frame.view.base + 3, 3⟩
    obtain ⟨chain, x, y, r, hchain, hcall⟩ :=
      hv (s.machine.restack a b) ⟨hs.heap, hs.world, hs.host⟩ ⟨hroom.1, hroom.2, hroom.3⟩ w _ rfl
        hlive
    let left : Active F S :=
      ⟨{ s.frame with index := 1 }, ((s.machine.restack a b).restack x y).withChannel r⟩
    -- Nothing is known of the callee but how it ends, so that it keeps the head is its isolation.
    have hkept := (Dispatch.run_isolated fuel w (.call v)).kept
      (show EndsIn (perform fuel (.call w v) (s.machine.restack a b)) left.machine by
        rw [hcall]
        exact ⟨trivial, rfl⟩)
    have hleft : left.AtCount n k := hcount.congr rfl rfl fun i hi =>
      hkept.slot _ (Nat.add_lt_add_left hi _)
    let yielded : Suspension := ⟨[.int (partialSum k), .int (.ofNat k), .int 1], chain⟩
    have hrun : sumFrom (perform fuel) v n (j + 1) s = .error (.suspend yielded) left :=
      (hask _ j).trans (bind_of_error (Body.lift_of_error hcall))
    obtain ⟨z, hsuspend⟩ := suspendFrame_ok f left.frame yielded left.machine
    have hleave : leaveBody f (sumFrom (perform fuel) v n (j + 1) s) = _ :=
      (congrArg (leaveBody f) hrun).trans hsuspend
    rw [hleave]
    exact .suspended hlt _ chain x z r (hleft.saved f) hchain

variable (hf : m.heap.function f = .routine (.sharedSum v)) (hn : Fits n)
  (hv : YieldsThree m room fuel v) (hfuel : 1 ≤ fuel) (hu : m.Beside u)
  (hroom : u.Within (room + 1))

include hf hn hv hfuel hu hroom

/-- **A call** of the sum comes to the first head. -/
theorem stage_of_call {w : View} (hlive : w.live u = [.int n]) :
    SumStage m room fuel f n 0 u (perform (fuel + 1) (.call w (.fn f)) u) := by
  obtain ⟨j, rfl⟩ := Nat.exists_eq_add_of_le' hfuel
  refine SumStage.drained (x := invoke (runner (j + 1) (perform (j + 1))) w (.fn f)) ?_ _ w j
  have hdepth := hroom.depth
  obtain ⟨s, x, y, hmachine, hzero, -, -, hinvoke⟩ :=
    invoke_sums (hu.function_eq.trans hf) hlive (by omega)
  rw [hinvoke, hmachine]
  have hstage := stage_of_head hn hv hzero (Nat.zero_le _)
    (by rw [hmachine]; exact ⟨hu.heap, hu.world, hu.host⟩)
    (by rw [hmachine]; exact ⟨hroom.1, hroom.2, show u.thread.depth + 1 + room ≤ _ by
      exact (Nat.add_right_comm ..).trans_le hdepth⟩) f j
  rw [← runBody_eq, hmachine] at hstage
  exact .restacked (s := x) (t := y) (c := u.thread.results) (SumStage.counted hstage)

/-- **A replay** of a saved head with the next partial sum comes to the next head. -/
theorem stage_of_replay {saved : Saved} {chain : List Link} (hk : k < n.toInt.toNat)
    (hsaved : saved.AtCount u.heap.cells n k) (hchain : Returns m room fuel chain) (w : View) :
    SumStage m room fuel f n (k + 1) u
      (perform (fuel + 1) (.replay (⟨f, 1, saved⟩ :: chain) [.int (partialSum (k + 1))] w) u) := by
  obtain ⟨j, rfl⟩ := Nat.exists_eq_add_of_le' hfuel
  let link : Link := ⟨f, 1, saved⟩
  let sum : Val := .int (partialSum (k + 1))
  refine SumStage.drained (x := reenter (runner (j + 1) (perform (j + 1))) link chain [sum] w)
    ?_ _ w j
  have hdepth := hroom.depth
  obtain ⟨z, hreenter⟩ := reenter_counted (m := u) link chain [sum] w (by omega)
  rw [hreenter]
  let enteredAt : Machine F S := entered { u with trace := z }
  have hbody : (enteredAt.heap.function f).body? (j + 1) (perform (j + 1)) f = some ("shared_sum",
      (Routine.sharedSum v).layout, runSharedSum (j + 1) (perform (j + 1)) v) := by
    rw [show enteredAt.heap.function f = _ from hu.function_eq.trans hf]
    rfl
  obtain ⟨x, y, hslots, -, hopen⟩ := rerun_opens hbody (Nat.succ_ne_zero 0) saved w
  let frame : Frame := ⟨⟨w.base, saved.top⟩, 1, 6, saved.varargs⟩
  let scratch : View := ⟨w.base + 6, 0⟩
  obtain ⟨a, b, hreplay⟩ := hchain (enteredAt.restack x y) ⟨hu.heap, hu.world, hu.host⟩
    ⟨hroom.1, hroom.2, show u.thread.depth + 1 + room ≤ u.world.config.maxCallDepth by omega⟩
    scratch sum
  -- The links below the frame have changed no slot of it.
  let back : Active F S := ⟨frame, ((enteredAt.restack x y).restack a b).withResults [sum]⟩
  have hkept := (Dispatch.run_isolated (j + 1) scratch (.replay chain [sum])).kept
    (show EndsIn (perform (j + 1) (.replay chain [sum] scratch) (enteredAt.restack x y))
      back.machine by
        rw [hreplay]
        rfl)
  have hcount : back.AtCount n k := by
    refine hsaved.reopened rfl rfl fun i hi => ?_
    refine (hkept.slot _ (Nat.add_lt_add_left hi _)).trans ((hslots _).trans ?_)
    have hlength := hsaved.1
    rw [View.slot_restore, if_pos (show w.base ≤ w.base + i ∧ w.base + i < _ by omega)]
    exact congrArg (saved.slots.getD · .nil) (Nat.add_sub_cancel_left w.base i)
  have hresult : Body.lift (result 0) back = .ok sum back := Body.lift_of_ok rfl
  obtain ⟨⟨g, t⟩, htake, ht, hnext⟩ := takeSum_next (s := back) hn hcount hk rfl
  obtain ⟨c, d, rfl : t = _⟩ := ht.machine
  have hentry : sumEntry v back.frame.index back = .ok () _ :=
    (sumEntry_resumed v hcount hresult).trans htake
  -- The next head gives the stage. The rest leads back from the head to the request: the stack and
  -- the channel have changed on the way, which a stage does not tell.
  have hstage := stage_of_head hn hv hnext hk ⟨hu.heap, hu.world, hu.host⟩
    ⟨hroom.1, hroom.2, show u.thread.depth + 1 + room ≤ u.world.config.maxCallDepth by omega⟩ f j
  rw [← runSharedSum_from (s := back) hentry hnext] at hstage
  have hbacked : SumStage m room (j + 1) f n (k + 1) back.machine _ :=
    .restacked (s := c) (t := d) (c := .ofValues [sum]) hstage
  have hentered : SumStage m room (j + 1) f n (k + 1) (enteredAt.restack x y) _ :=
    .restacked (s := a) (t := b) (c := .ofValues [sum]) hbacked
  have hrerun : (runner (j + 1) (perform (j + 1))).rerun link chain [sum] w enteredAt =
      leaveBody f (runSharedSum (j + 1) (perform (j + 1)) v back) :=
    (hopen chain [sum]).trans (congrArg (leaveBody f) (bind_of_ok (Body.lift_of_ok hreplay)))
  rw [← hrerun] at hentered
  have hout : SumStage m room (j + 1) f n (k + 1) { u with trace := z } _ :=
    SumStage.counted (.restacked (s := x) (t := y) (c := u.thread.results) hentered)
  exact .restacked (s := u.thread.stack) (t := z) (c := u.thread.results) hout

end Stages

/-! ## Resumes with the sums -/

def sumOf (values : List Val) : Int64 := (values.map fun v => v.toInt?.getD 0).sum

/-- Resumes a coroutine with a value, and then some times with the sum of what it has yielded. -/
def resumeSums (P : Perform F S) (w : View) (co : CoId) (v : Val) : Nat → M F S Outcome
  | 0 => resume P w co [v]
  | k + 1 => do
    let _ ← resumeSums P w co v k
    resume P w co [.int (sumOf (← resultList))]

section Resumes

variable [HostBody F S]

/-- What has come of a coroutine over the sum that has been resumed for the first time and then `k`
times: below the last head it is suspended, and has yielded what is staged there; then it is dead
and has returned the last partial sum. -/
inductive Reached (m : Machine F S) (room fuel : Nat) (f : FnId) (n : Int64) (co : CoId) (k : Nat) :
    EStateM.Result Unwind (Machine F S) Outcome → Prop
  | yielded (hk : k < n.toInt.toNat) (t : Machine F S) (ht : m.Beside t)
    (hdepth : t.thread.depth = m.thread.depth) (saved : Saved) (chain : List Link)
    (hco : t.heap.coroutine co = .suspended (⟨f, 1, saved⟩ :: chain))
    (hsaved : saved.AtCount t.heap.cells n k) (hchain : Returns m room fuel chain)
    (hresults : t.thread.results =
      .ofValues [.int (partialSum k), .int (.ofNat k), .int 1]) :
    Reached m room fuel f n co k (.ok .yielded t)
  | returned (hk : k = n.toInt.toNat) (t : Machine F S) (ht : m.Beside t)
    (hdepth : t.thread.depth = m.thread.depth) (hco : t.heap.coroutine co = .dead)
    (hresults : t.thread.results = .ofValues [.int (partialSum k)]) :
    Reached m room fuel f n co k (.ok .returned t)

variable {m t : Machine F S} {room fuel k : Nat} {f : FnId} {v : Val} {n : Int64} {co : CoId}

/-- **One resume** hands back what the run of the sum ends with. -/
theorem reached_of_stage {x : M F S Unit} {a : Stack} {b : Option (Array TraceEvent)}
    (h : SumStage m room fuel f n k ((t.turnedTo co).restack a b)
      (x ((t.turnedTo co).restack a b)))
    (hsize : co.index < t.heap.coroutines.size) (ht : m.Beside t)
    (hdepth : t.thread.depth = m.thread.depth) : Reached m room fuel f n co k
      ((attempt x >>= handBack t.thread.current t.thread.boundaries co)
        ((t.turnedTo co).restack a b)) := by
  have hturned : co.index < (t.turnedTo co).heap.coroutines.size := by
    show co.index < (turn (turn _ _ _) _ _).size
    rwa [size_turn, size_turn]
  rw [attempt_bind]
  generalize hx : x ((t.turnedTo co).restack a b) = r at h
  cases h with
  | suspended hk saved chain c d r hsaved hchain =>
    let u := (((t.turnedTo co).restack a b).restack c d).withChannel r
    let s : Suspension :=
      ⟨[.int (partialSum k), .int (.ofNat k), .int 1], ⟨f, 1, saved⟩ :: chain⟩
    obtain ⟨z, hback⟩ := handBack_suspend t.thread.current t.thread.boundaries co u s
    dsimp only
    rw [hback]
    refine .yielded hk _ ⟨ht.heap, ht.world, ht.host⟩ hdepth saved chain ?_ hsaved hchain rfl
    exact (coroutine_turnedBack u _ t.thread.boundaries co _ co).trans (if_pos ⟨rfl, hturned⟩)
  | returned hk c d =>
    let u := (((t.turnedTo co).restack a b).restack c d).withResults [.int (partialSum k)]
    obtain ⟨z, hback⟩ := handBack_ok t.thread.current t.thread.boundaries co u
    dsimp only
    rw [hback]
    refine .returned hk _ ⟨ht.heap, ht.world, ht.host⟩ hdepth ?_ rfl
    exact (coroutine_turnedBack u _ t.thread.boundaries co _ co).trans (if_pos ⟨rfl, hturned⟩)

/-- What is yielded at a head has the next partial sum as its sum. -/
theorem sumOf_staged (k : Nat) :
    sumOf [.int (partialSum k), .int (.ofNat k), .int 1] = partialSum (k + 1) := by
  rw [← partialSum_succ, Int64.add_assoc]
  simp [sumOf, Val.toInt?]

/-- **Resume after resume.** The induction is on the number of resumes. -/
theorem resumes_reach [QuietHost F S] (hf : m.heap.function f = .routine (.sharedSum v))
    (hn : Fits n) (hv : YieldsThree m room fuel v) (hfuel : 1 ≤ fuel)
    (hco : m.heap.coroutine co = .fresh (.fn f))
    (hdepth : m.thread.depth + (room + 1) ≤ m.world.config.maxCallDepth) (w : View)
    (hk : k ≤ n.toInt.toNat) :
    Reached m room fuel f n co k (resumeSums (perform (fuel + 1)) w co (.int n) k m) := by
  induction k with
  | zero =>
    obtain ⟨a, b, hlive, hresume⟩ := resume_fresh hco [.int n] w
    show Reached m room fuel f n co 0 (resume (perform (fuel + 1)) w co [.int n] m)
    rw [hresume]
    refine reached_of_stage ?_ (lt_size_of_ne_dead (by rw [hco]; nofun)) (.refl m) rfl
    exact stage_of_call (u := (m.turnedTo co).restack a b) hf hn hv hfuel ⟨rfl, rfl, rfl⟩
      ⟨rfl, rfl, hdepth⟩ hlive
  | succ k ih =>
    have hreached := ih (Nat.le_of_lt hk)
    generalize hr : resumeSums (perform (fuel + 1)) w co (.int n) k m = r at hreached
    cases hreached with
    | returned hlast => omega
    | yielded _ t ht htdepth saved chain htco hsaved hchain hresults =>
      have hlist : (resultList : M F S (List Val)) t =
          .ok [.int (partialSum k), .int (.ofNat k), .int 1] t := by
        show orViolate t.thread.results.read t = _
        rw [hresults]
        rfl
      have hnext : resumeSums (perform (fuel + 1)) w co (.int n) (k + 1) m =
          resume (perform (fuel + 1)) w co [.int (partialSum (k + 1))] t := by
        rw [← sumOf_staged k]
        exact (bind_of_ok hr).trans (bind_of_ok hlist)
      obtain ⟨b, hresume⟩ := resume_eq [.int (partialSum (k + 1))]
        (show (t.heap.coroutine co).status = .suspended by rw [htco]; rfl)
      rw [hnext, hresume, htco]
      refine reached_of_stage (a := t.thread.stack) (b := b) ?_
        (lt_size_of_ne_dead (by rw [htco]; nofun)) ht htdepth
      refine stage_of_replay (u := (t.turnedTo co).restack t.thread.stack b) hf hn hv hfuel
        ⟨ht.heap, ht.world, ht.host⟩ ⟨rfl, rfl, ?_⟩ hk hsaved hchain w
      show t.thread.depth + _ ≤ t.world.config.maxCallDepth
      rw [htdepth, ht.world]
      exact hdepth

end Resumes

/-! ## Both ways -/

section Totals

variable [HostBody F S] {m : Machine F S} {f : FnId} {v : Val} {n : Int64} {fuel : Nat}

/-- A call of the sum from outside gives a total, and changes no object and no global. At the start
and after each call of its callee it is at a head of its loop, and goes on from there. -/
structure SumsByCalls (m : Machine F S) (f : FnId) (v : Val) (n total : Int64) (fuel : Nat) :
    Prop where
  returns : ∃ t, m.Unwritten t ∧ t.thread.depth = m.thread.depth ∧
    callFromOutside (perform (fuel + 1)) (.fn f) [.int n] m = .ok [.int total] t
  heads : ∀ k ≤ n.toInt.toNat, ∃ s : Active F S, s.AtCount n k ∧ m.Unwritten s.machine ∧
    callFromOutside (perform (fuel + 1)) (.fn f) [.int n] m = outcomeOf ((do
      ensuring (runBody f (sumFrom (perform fuel) v n (fuel - k)) s.frame) leave
      drain (runner fuel (perform fuel)) ⟨0, 1⟩ fuel : M F S Unit) s.machine)

/-- A coroutine over the sum that is resumed with the sum of what it has yielded returns a total,
and changes no object but itself. After each resume before that it has yielded what is staged, and
its frame is saved at the head of its loop. -/
structure SumsByResumes (m : Machine F S) (f : FnId) (co : CoId) (w : View) (n total : Int64)
    (fuel : Nat) : Prop where
  returns : ∃ t, m.Beside t ∧ t.heap.coroutine co = .dead ∧
    t.thread.results = .ofValues [.int total] ∧
    resumeSums (perform (fuel + 1)) w co (.int n) n.toInt.toNat m = .ok .returned t
  heads : ∀ k < n.toInt.toNat, ∃ t saved chain, m.Beside t ∧ saved.AtCount t.heap.cells n k ∧
    t.heap.coroutine co = .suspended (⟨f, 1, saved⟩ :: chain) ∧
    t.thread.results = .ofValues [.int (partialSum k), .int (.ofNat k), .int 1] ∧
    resumeSums (perform (fuel + 1)) w co (.int n) k m = .ok .yielded t

theorem fits_of_range (h : n ≤ 0 ∨ n.toInt * (n.toInt + 1) / 2 < 2 ^ 63) : Fits n ∧
    (partialSum n.toInt.toNat).toInt = if n ≤ 0 then 0 else n.toInt * (n.toInt + 1) / 2 := by
  have hzero : n ≤ 0 ↔ n.toInt ≤ 0 := Int64.le_iff_toInt_le
  by_cases hn : n ≤ 0
  · have hnat : n.toInt.toNat = 0 := Int.toNat_of_nonpos (hzero.1 hn)
    rw [if_pos hn, Fits, hnat]
    exact ⟨by decide, rfl⟩
  · have hint : (triangle n.toInt.toNat : Int) = n.toInt * (n.toInt + 1) / 2 := by
      have hcast : (n.toInt.toNat : Int) = n.toInt :=
        Int.toNat_of_nonneg (Int.le_of_lt (Int.not_le.1 (mt hzero.2 hn)))
      rw [triangle, Int.natCast_ediv, Int.natCast_mul, Int.natCast_add, hcast]
      rfl
    have hfits : Fits n := by
      have hlt := h.resolve_left hn
      rw [← hint] at hlt
      exact Int.ofNat_lt.1 hlt
    rw [if_neg hn, ← hint]
    exact ⟨hfits, hfits.toInt_partialSum (Nat.le_refl _)⟩

theorem sums_by_calls {g : FnId} (hf : m.heap.function f = .routine (.sharedSum (.fn g)))
    (hg : m.heap.function g = .builtin .add3) (hn : Fits n)
    (hdepth : m.thread.depth + 2 ≤ m.world.config.maxCallDepth)
    (hfuel : n.toInt.toNat + 2 ≤ fuel) :
    SumsByCalls m f (.fn g) n (partialSum n.toInt.toNat) fuel := by
  obtain ⟨x, hcall⟩ := callFromOutside_eq (.fn f) [.int n] m
  have hroot : (⟨0, 1⟩ : View).live
      (m.restack (View.root.load m.thread.stack [.int n]).2 x) = [.int n] :=
    View.live_load .root m x
  generalize (View.root.load m.thread.stack [.int n]).2 = s₀ at hcall hroot
  let u := m.restack s₀ x
  refine ⟨?_, fun k hk => ?_⟩
  · obtain ⟨y, z, -, hend⟩ := perform_sums (m := u) hf hg hn hroot hdepth hfuel
    refine ⟨(u.restack y z).emptied, ⟨rfl, rfl, rfl⟩, rfl, ?_⟩
    exact (hcall _).trans ((congrArg outcomeOf hend).trans (outcomeOf_values rfl))
  · obtain ⟨s, hcount, ⟨y, z, r, hmachine, -⟩, hinvoke⟩ :=
      invoke_heads (m := u) hf hg hn hroot hdepth hk (show 2 ≤ fuel by omega) (by omega)
    refine ⟨s, hcount, ⟨?_, ?_, ?_⟩, (hcall _).trans (congrArg outcomeOf (bind_at hinvoke))⟩ <;>
      rw [hmachine] <;> rfl

theorem sums_by_resumes [QuietHost F S] {room : Nat} {co : CoId}
    (hf : m.heap.function f = .routine (.sharedSum v)) (hn : Fits n)
    (hv : YieldsThree m room fuel v) (hco : m.heap.coroutine co = .fresh (.fn f))
    (hdepth : m.thread.depth + (room + 1) ≤ m.world.config.maxCallDepth) (hfuel : 1 ≤ fuel)
    (w : View) : SumsByResumes m f co w n (partialSum n.toInt.toNat) fuel where
  returns := by
    have hreached := resumes_reach hf hn hv hfuel hco hdepth w (Nat.le_refl _)
    generalize hr : resumeSums (perform (fuel + 1)) w co (.int n) n.toInt.toNat m = r at hreached
    cases hreached with
    | yielded hk => exact absurd hk (Nat.lt_irrefl _)
    | returned _ t ht _ hdead hresults => exact ⟨t, ht, hdead, hresults, rfl⟩
  heads k hk := by
    have hreached := resumes_reach hf hn hv hfuel hco hdepth w (Nat.le_of_lt hk)
    generalize hr : resumeSums (perform (fuel + 1)) w co (.int n) k m = r at hreached
    cases hreached with
    | returned hlast => omega
    | yielded _ t ht _ saved chain htco hsaved _ hresults =>
      exact ⟨t, saved, chain, ht, hsaved, htco, hresults, rfl⟩

/-- **Staged sums.** For an argument that is not positive, or has an integer of the machine as sum
of the numbers up to it, the summing function gives this sum: called from outside over a sum of
three, and in a coroutine over a function that yields its three arguments, when it is resumed with
their sum each time. Whenever its callee has come back or has been suspended, its slots hold the
argument, the count and the partial sum. -/
theorem staged_sums [QuietHost F S] (hf : m.heap.function f = .routine (.sharedSum v))
    (hn : n ≤ 0 ∨ n.toInt * (n.toInt + 1) / 2 < 2 ^ 63) (hfuel : n.toInt.toNat + 2 ≤ fuel) :
    ∃ total : Int64, total.toInt = (if n ≤ 0 then 0 else n.toInt * (n.toInt + 1) / 2) ∧
      (∀ g, v = .fn g → m.heap.function g = .builtin .add3 →
        m.thread.depth + 2 ≤ m.world.config.maxCallDepth → SumsByCalls m f v n total fuel) ∧
      ∀ room co w, YieldsThree m room fuel v → m.heap.coroutine co = .fresh (.fn f) →
        m.thread.depth + (room + 1) ≤ m.world.config.maxCallDepth →
        SumsByResumes m f co w n total fuel := by
  obtain ⟨hfits, htotal⟩ := fits_of_range hn
  refine ⟨partialSum n.toInt.toNat, htotal, ?_, fun room co w hv hco hdepth => ?_⟩
  · rintro g rfl hg hdepth
    exact sums_by_calls hf hg hfits hdepth hfuel
  · exact sums_by_resumes hf hfits hv hco hdepth (by omega) w

/-- Up to 4, by plain calls and by resumes. -/
theorem staged_sums_four :
    let m : Machine Empty PUnit := start (⟨#[], #[],
      #[.routine (.sharedSum (.fn ⟨1⟩)), .builtin .add3, .routine (.sharedSum (.fn ⟨3⟩)),
        .builtin .yield], #[.fresh (.fn ⟨2⟩)]⟩ : Heap Empty) ⟨2, 0, 0⟩ none ⟨⟩
    m.heap.function ⟨0⟩ = .routine (.sharedSum (.fn ⟨1⟩)) ∧
      m.heap.function ⟨2⟩ = .routine (.sharedSum (.fn ⟨3⟩)) ∧
      ((4 : Int64) ≤ 0 ∨ (4 : Int64).toInt * ((4 : Int64).toInt + 1) / 2 < 2 ^ 63) ∧
      (4 : Int64).toInt.toNat + 2 ≤ 6 ∧
      SumsByCalls m ⟨0⟩ (.fn ⟨1⟩) 4 10 6 ∧ SumsByResumes m ⟨2⟩ ⟨0⟩ .root 4 10 6 := by
  intro m
  have hrange : (4 : Int64) ≤ 0 ∨ (4 : Int64).toInt * ((4 : Int64).toInt + 1) / 2 < 2 ^ 63 := by
    decide
  have hfuel : (4 : Int64).toInt.toNat + 2 ≤ 6 := by decide
  have hten : ∀ total : Int64, total.toInt = (if (4 : Int64) ≤ 0 then 0
      else (4 : Int64).toInt * ((4 : Int64).toInt + 1) / 2) → total = 10 :=
    fun total htotal => Int64.toInt_inj.1 htotal
  have hyields : YieldsThree m 1 6 (.fn ⟨3⟩) := yieldsThree_yield rfl (by decide)
  obtain ⟨a, ha, hcalls, -⟩ := staged_sums (m := m) (f := ⟨0⟩) rfl hrange hfuel
  obtain ⟨b, hb, -, hresumes⟩ := staged_sums (m := m) (f := ⟨2⟩) rfl hrange hfuel
  obtain rfl := hten a ha
  obtain rfl := hten b hb
  exact ⟨rfl, rfl, hrange, hfuel, hcalls ⟨1⟩ rfl rfl (by decide),
    hresumes 1 ⟨0⟩ .root hyields rfl (by decide)⟩

end Totals

end ScriptCore
