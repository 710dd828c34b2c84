import ScriptCore.Proofs.StagedResumes

/-!
# Rounds with the echo

A coroutine over the echo yields the successor of what it is resumed with. Whenever it waits, it is
fresh, or its last yield has left a link to the one slot of the echo (`EchoWaits`).

1. What runs in the coroutine ends with the next yield, and takes the room of one slot
   (`echo_segment`).
2. So a resume hands back the successor and leaves the coroutine waiting (`resume_echoes`), and by
   induction `k` rounds from `n` give `n + k` (`pingPong_counts`).
3. Where there is no room for a call, the first resume overflows (`pingPong_full`).
-/

namespace ScriptCore

open Machine Routine

variable {F S : Type}

/-- A coroutine over the echo that can be resumed. -/
inductive EchoWaits (f : FnId) : Coroutine → Prop
  | fresh : EchoWaits f (.fresh (.fn f))
  | suspended (saved : Saved) (hslots : saved.slots.length = 1) (htop : saved.top = 1) :
    EchoWaits f (.suspended [⟨f, 1, saved⟩])

/-- A run is suspended by a yield of the echo, and has taken the room of one slot. -/
def Echoes (u : Machine F S) (f : FnId) (n : Int64)
    (r : EStateM.Result Unwind (Machine F S) Unit) : Prop :=
  ∃ saved x y c, saved.slots.length = 1 ∧ saved.top = 1 ∧
    x.capacity = Stack.grown 1 u.thread.stack.capacity ∧
    r = .error (.suspend ⟨[.int n], [⟨f, 1, saved⟩]⟩) ((u.restack x y).withChannel c)

section Segments

variable {n : Int64} {f : FnId} {co : CoId}

/-- The body yields the successor of its input. -/
theorem runEcho_yields {s : Active F S} (hinput : echoInput s.frame.index s = .ok (.int n) s)
    (hcurrent : s.machine.thread.current.isSome) (hboundaries : s.machine.thread.boundaries = 0) :
    runEcho s = .error (.suspend ⟨[.int (n + 1)], []⟩)
      ⟨{ s.frame with index := 1 }, s.machine⟩ := by
  have hnext : Body.lift (successor (.int n)) s = .ok (.int (n + 1)) s :=
    Body.lift_of_ok (successor_int n s.machine)
  let left : Active F S := ⟨{ s.frame with index := 1 }, s.machine⟩
  have hindex : (Body.setIndex 1 : Body F S Unit) s = .ok () left := rfl
  have hyield : (yieldValues [.int (n + 1)] : M F S Unit) left.machine =
      .error (.suspend ⟨[.int (n + 1)], []⟩) s.machine := by
    have hcurrent : ¬ s.machine.thread.current.isNone := by
      rw [Option.isNone_iff_eq_none]
      exact Option.isSome_iff_ne_none.1 hcurrent
    rw [yieldValues_eq, if_neg hcurrent, if_neg (not_not_intro hboundaries)]
  have hframe : (Body.frame : Body F S Frame) s = .ok s.frame s := rfl
  unfold runEcho
  refine (bind_of_ok hframe).trans ?_
  refine (bind_of_ok hinput).trans ((bind_of_ok hnext).trans ((bind_of_ok hindex).trans ?_))
  exact Body.lift_of_error hyield

variable [HostBody F S] {m u : Machine F S}

/-- The frame of the echo is left with a link to its slot. -/
theorem leave_echo {s : Active F S} (hinput : echoInput s.frame.index s = .ok (.int n) s)
    (hcurrent : s.machine.thread.current.isSome) (hboundaries : s.machine.thread.boundaries = 0)
    (hslots : s.frame.slots = 1) (htop : s.frame.view.top = 1) (f : FnId) : ∃ saved y,
      saved.slots.length = 1 ∧ saved.top = 1 ∧ leaveBody f (runEcho s) =
        .error (.suspend ⟨[.int (n + 1)], [⟨f, 1, saved⟩]⟩) { s.machine with trace := y } := by
  let left : Frame := { s.frame with index := 1 }
  obtain ⟨y, hsuspend⟩ := suspendFrame_ok f left ⟨[.int (n + 1)], []⟩ s.machine
  refine ⟨(linkOf f left s.machine).saved, y, (View.length_snapshot ..).trans hslots, htop, ?_⟩
  rw [runEcho_yields hinput hcurrent hboundaries]
  exact hsuspend

variable (hf : u.heap.function f = .routine .echo) (hcurrent : u.thread.current.isSome)
  (hboundaries : u.thread.boundaries = 0)
  (hdepth : u.thread.depth < u.world.config.maxCallDepth)

include hf hcurrent hboundaries hdepth

/-- The first run of the echo. -/
theorem echo_call {w : View} (hbase : w.base = 0) (hlive : w.live u = [.int n]) (fuel : Nat) :
    Echoes u f (n + 1) (perform (fuel + 1) (.call w (.fn f)) u) := by
  have hbody : (u.heap.function f).body? fuel (perform fuel) f =
      some ("echo", Routine.echo.layout, runEcho) := by
    rw [hf]
    rfl
  obtain ⟨frame, x, y, hfresh, -, hcapacity, hinvoke⟩ :=
    invoke_opens (body?_arity hbody) hlive (Nat.le_refl 1) rfl nofun
  let opened : Active F S := ⟨frame, entered (u.restack x y)⟩
  have hinput : echoInput opened.frame.index opened = .ok (.int n) opened := by
    rw [show opened.frame.index = 0 from hfresh.index]
    exact congrArg (EStateM.Result.ok · _) (hfresh.params 0 Nat.zero_lt_one)
  obtain ⟨saved, z, hslots, hsaved, hleft⟩ :=
    leave_echo (s := opened) hinput hcurrent hboundaries hfresh.slots hfresh.top f
  have hcall := (hinvoke hbody hdepth).trans
    (ensuring_error ((runBody_eq f runEcho frame _).trans hleft))
  rw [hbase, Nat.zero_add] at hcapacity
  exact ⟨saved, x, z, u.thread.results, hslots, hsaved, hcapacity, bind_of_error hcall⟩

/-- Every other run of the echo. -/
theorem echo_replay {saved : Saved} (hslots : saved.slots.length = 1) (htop : saved.top = 1)
    (fuel : Nat) :
    Echoes u f (n + 1) (perform (fuel + 2) (.replay [⟨f, 1, saved⟩] [.int n] .root) u) := by
  obtain ⟨z, hreenter⟩ := reenter_counted (m := u) ⟨f, 1, saved⟩ [] [.int n] .root hdepth
  let enteredAt : Machine F S := entered { u with trace := z }
  have hbody : (enteredAt.heap.function f).body? (fuel + 1) (perform (fuel + 1)) f =
      some ("echo", Routine.echo.layout, runEcho) := by
    rw [show enteredAt.heap.function f = .routine .echo from hf]
    rfl
  obtain ⟨x, y, -, hcapacity, hrerun⟩ := rerun_opens hbody (Nat.succ_ne_zero 0) saved .root
  let back : Active F S := ⟨⟨⟨0, saved.top⟩, 1, 1, saved.varargs⟩,
    (enteredAt.restack x y).withResults [.int n]⟩
  have hresult : (result 0 : M F S Val) back.machine = .ok (.int n) back.machine := rfl
  have hinput : echoInput back.frame.index back = .ok (.int n) back :=
    Body.lift_of_ok (s := back) hresult
  obtain ⟨next, y', hnext, hnexttop, hleft⟩ :=
    leave_echo (s := back) hinput hcurrent hboundaries rfl htop f
  have hcall := (hreenter _).trans (ensuring_error ((hrerun [] [.int n]).trans hleft))
  refine ⟨next, x, y', .ofValues [.int n], hnext, hnexttop, hcapacity.trans ?_, bind_of_error hcall⟩
  -- Saved slots, live slots and the frame come to the same end.
  have hone : ∀ c, Stack.grownAll [0 + 1, 0 + 1, 0 + 1] c = Stack.grown 1 c := fun c => by
    rw [Stack.grownAll_cons]
    exact Stack.grownAll_of_le fun k hk => by
      obtain rfl : k = 1 := by simpa using hk
      exact Stack.le_grown 1 c
  rw [hslots, htop]
  exact hone _

/-- **What runs in the coroutine** yields the successor of what it is resumed with. -/
theorem echo_segment {c : Coroutine} (hc : EchoWaits f c) (fuel : Nat) :
    Echoes u f (n + 1) (segment (perform (fuel + 2)) .root [.int n] c u) := by
  rcases hc with _ | ⟨saved, hslots, htop⟩
  · obtain ⟨y, hload⟩ := onStack_ok (View.root.load · [.int n]) u
    let v := u.restack (View.root.load u.thread.stack [.int n]).2 y
    have hlive : (⟨0, 1⟩ : View).live v = [.int n] := View.live_load .root u y
    have hloaded : v.thread.stack.capacity = Stack.grown 1 u.thread.stack.capacity :=
      View.capacity_load .root u.thread.stack [.int n]
    obtain ⟨saved, x, z, c, hslots, htop, hcapacity, hcall⟩ :=
      echo_call (u := v) hf hcurrent hboundaries hdepth (w := ⟨0, 1⟩) rfl hlive (fuel + 1)
    refine ⟨saved, x, z, c, hslots, htop, ?_, (bind_of_ok hload).trans hcall⟩
    rw [hcapacity, hloaded]
    exact Stack.grown_of_le (Stack.le_grown ..)
  · exact echo_replay hf hcurrent hboundaries hdepth hslots htop fuel

end Segments

/-! ## Rounds -/

section Rounds

variable {m : Machine F S} {f : FnId} {co : CoId}

/-- What some rounds with the echo leave. -/
structure Echoed (m t : Machine F S) (f : FnId) (co : CoId) (n : Int64) : Prop where
  beside : m.Beside t
  depth : t.thread.depth = m.thread.depth
  waits : EchoWaits f (t.heap.coroutine co)
  results : t.thread.results = .ofValues [.int n]
  capacity : t.thread.stack.capacity = Stack.grown 1 m.thread.stack.capacity

namespace Echoed

variable {t u : Machine F S} {n k : Int64}

theorem trans (h : Echoed m t f co n) (g : Echoed t u f co k) : Echoed m u f co k where
  beside := h.beside.trans g.beside
  depth := g.depth.trans h.depth
  waits := g.waits
  results := g.results
  capacity := by
    rw [g.capacity, h.capacity]
    exact Stack.grown_of_le (Stack.le_grown ..)

theorem result_eq (h : Echoed m t f co n) : (result 0 : M F S Val) t = .ok (.int n) t := by
  rw [result_ok (by rw [h.results]; rfl), h.results]
  rfl

end Echoed

theorem EchoWaits.status {c : Coroutine} (h : EchoWaits f c) : c.status = .suspended := by
  rcases h with _ | _ <;> rfl

variable [HostBody F S] (hf : m.heap.function f = .routine .echo)
  (hco : EchoWaits f (m.heap.coroutine co)) (hdepth : m.thread.depth < m.world.config.maxCallDepth)

include hf hco hdepth

/-- **One round.** -/
theorem resume_echoes (n : Int64) (fuel : Nat) : ∃ t,
    resume (perform (fuel + 2)) .root co [.int n] m = .ok .yielded t ∧
      Echoed m t f co (n + 1) := by
  have hsize : co.index < m.heap.coroutines.size :=
    lt_size_of_ne_dead fun hdead => by
      have hstatus := hco.status
      rw [hdead] at hstatus
      cases hstatus
  obtain ⟨b, hresume⟩ := resume_eq [.int n] hco.status
  let u : Machine F S := { m.turnedTo co with trace := b }
  obtain ⟨saved, x, y, c, hslots, htop, hcapacity, hsegment⟩ :=
    echo_segment (u := u) (n := n) hf rfl rfl hdepth hco fuel
  let v := (u.restack x y).withChannel c
  obtain ⟨z, hback⟩ := handBack_suspend m.thread.current m.thread.boundaries co v
    ⟨[.int (n + 1)], [⟨f, 1, saved⟩]⟩
  have hturned : co.index < v.heap.coroutines.size := by
    show co.index < (turn (turn _ _ _) _ _).size
    rwa [size_turn, size_turn]
  let t : Machine F S := { v.turnedBack m.thread.current m.thread.boundaries co
    (.suspended [⟨f, 1, saved⟩]) with trace := z }
  refine ⟨t.withResults [.int (n + 1)], ?_, ⟨rfl, rfl, rfl⟩, rfl, ?_, rfl, hcapacity⟩
  · rw [hresume, attempt_bind, hsegment]
    exact hback
  · have hwaits : (v.turnedBack m.thread.current m.thread.boundaries co
        (.suspended [⟨f, 1, saved⟩])).heap.coroutine co = .suspended [⟨f, 1, saved⟩] :=
      (coroutine_turnedBack ..).trans (if_pos ⟨rfl, hturned⟩)
    exact hwaits ▸ .suspended saved hslots htop

/-- **Rounds in a row.** The induction is on their number. -/
theorem pingPong_counts (n : Int64) (k fuel : Nat) : ∃ t,
    pingPong (perform (fuel + 2)) co (k + 1) (.int n) m = .ok (.int (n + .ofNat (k + 1))) t ∧
      Echoed m t f co (n + .ofNat (k + 1)) := by
  induction k generalizing m n with
  | zero =>
    obtain ⟨t, hresume, ht⟩ := resume_echoes hf hco hdepth n fuel
    exact ⟨t, (bind_of_ok hresume).trans (bind_of_ok ht.result_eq), ht⟩
  | succ k ih =>
    obtain ⟨t, hresume, ht⟩ := resume_echoes hf hco hdepth n fuel
    obtain ⟨u, hrounds, hu⟩ := ih (ht.beside.function_eq.trans hf) ht.waits
      (by rw [ht.depth, ht.beside.world]; exact hdepth) (n + 1)
    have hsum : n + 1 + Int64.ofNat (k + 1) = n + .ofNat (k + 1 + 1) := by
      rw [Int64.ofNat_add (k + 1), Int64.add_assoc, Int64.add_comm 1]
      rfl
    rw [hsum] at hrounds hu
    exact ⟨u, (bind_of_ok hresume).trans ((bind_of_ok ht.result_eq).trans hrounds), ht.trans hu⟩

end Rounds

/-- Where there is no room for a call, the first resume overflows. -/
theorem pingPong_full [HostBody F S] {m : Machine F S} {f : FnId} {co : CoId}
    (hco : m.heap.coroutine co = .fresh (.fn f))
    (hfull : m.world.config.maxCallDepth ≤ m.thread.depth) (v : Val) (k fuel : Nat) : ∃ t,
    pingPong (perform (fuel + 1)) co (k + 1) v m =
      .error (.fault (.stackOverflow m.thread.depth)) t ∧
      m.Beside t ∧ t.thread.depth = m.thread.depth := by
  obtain ⟨x, y, -, hresume⟩ := resume_fresh hco [v] .root
  obtain ⟨x', y', hcall⟩ := perform_full (m := (m.turnedTo co).restack x y) hfull
    ⟨View.root.base, [v].length⟩ f fuel
  let u : Machine F S := ((m.turnedTo co).restack x y).restack x' y'
  obtain ⟨z, hback⟩ := handBack_fault m.thread.current m.thread.boundaries co u
    (.stackOverflow m.thread.depth)
  let t : Machine F S :=
    { u.turnedBack m.thread.current m.thread.boundaries co .dead with trace := z }
  have hfails : resume (perform (fuel + 1)) .root co [v] m =
      .error (.fault (.stackOverflow m.thread.depth)) t := by
    rw [hresume, attempt_bind, hcall]
    exact hback
  exact ⟨t, bind_of_error hfails, ⟨rfl, rfl, rfl⟩, rfl⟩

end ScriptCore
