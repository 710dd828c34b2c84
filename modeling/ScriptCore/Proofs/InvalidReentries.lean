import ScriptCore.Proofs.PausedFunctions

/-!
# Invalid re-entries

A compiled body can be re-entered behind an operation that may suspend, and a hand-written one in
the segment in which it waits for an outcome (`Callable.SuspendsAt`). With no link below it, a body
that is re-entered runs on its saved slots, with the values of the resume as results
(`reenterFunction_bare`).

1. No body is re-entered at index 0.
2. A compiled body, and a hand-written one that looks at its index, is refused at every other index
   (`run_refused`), before it has written anything.
3. The bodies that count down by tail calls never suspend and do not look at their index. Whatever
   it is, they count down from their saved slots (`runTailStep_eq`, `runBounce_eq`), and so return a
   value where they should have been refused (`tailStep_reentered`).
-/

namespace ScriptCore

open Machine

variable {F S : Type}

/-! ## Where functions wait -/

/-- With this index a suspension can leave the function. -/
def Callable.SuspendsAt (index : Nat) : Callable F → Prop
  | .closure proto _ => ∃ pc op, index = pc + 1 ∧ proto.code[pc]? = some op ∧ op.maySuspend
  | .routine (.recurse _) | .routine (.sharedSum _) | .routine .echo => index = 1
  | _ => False

/-- A body that is re-entered at this index looks at it. -/
def Callable.Checks (index : Nat) : Callable F → Prop
  | .closure .. | .routine (.recurse _) | .routine (.sharedSum _) | .routine .echo => True
  | .routine .tailStep | .routine .bounce => index = 0
  | _ => False

/-- What is broken by re-entering a function at an index at which it does not wait. -/
def Callable.refusal [HostFunction F] (c : Callable F) : Nat → Violation
  | 0 => .entrySegment c.name
  | pc + 1 =>
    match c with
    | .closure proto _ =>
      match proto.code[pc]? with
      | none => .pastCode proto.name pc
      | some op => .neverSuspends proto.name pc op
    | c => .noSegment c.name (pc + 1)

theorem Callable.body?_name [HostFunction F] {c : Callable F} {fuel : Nat} {P : Perform F S}
    {f : FnId} {name : String} {layout : Layout} {body : Body F S Unit}
    (h : c.body? fuel P f = some (name, layout, body)) : c.name = name := by
  cases c with
  | closure | routine => cases h; rfl
  | builtin | protectedCall | wrapped | host => cases h

/-! ## Bodies at a wrong index -/

/-- An operation that never suspends is not completed. -/
theorem Interpreter.complete_never {proto : Proto} {pc : Nat} {op : Op}
    (hop : proto.code[pc]? = some op) (hnever : ¬ op.maySuspend) :
    (complete proto pc : Body F S Unit) = Body.lift (violate (.neverSuspends proto.name pc op)) := by
  unfold complete
  rw [hop]
  cases op with
  | unary op dst src =>
    obtain rfl : op = .not := by simpa [Op.maySuspend] using hnever
    rfl
  | getGlobal | setGlobal | index | newIndex | binary | call => exact absurd rfl hnever
  | _ => rfl

section Runs

variable [HostFunction F] {c : Callable F} {fuel : Nat} {P : Perform F S} {f : FnId}
  {name : String} {layout : Layout} {body : Body F S Unit} {s : Active F S}

/-- A body that looks at its index is refused where it does not wait. -/
theorem run_refused (hbody : c.body? fuel P f = some (name, layout, body))
    (hindex : s.frame.index ≠ 0) (hchecks : c.Checks s.frame.index)
    (hinvalid : ¬ c.SuspendsAt s.frame.index) :
    body s = .error (.fault (.contract (c.refusal s.frame.index))) s := by
  obtain ⟨pc, hpc⟩ := Nat.exists_eq_succ_of_ne_zero hindex
  rw [hpc] at hchecks hinvalid ⊢
  cases c with
  | closure proto cells =>
    cases hbody
    have hrun : Interpreter.run fuel P f proto s =
        (Interpreter.complete proto pc >>= fun _ =>
          Interpreter.loop P f proto fuel (pc + 1) : Body F S Unit) s := by
      show (if s.frame.index = 0 then _ else _ : Body F S Unit) s = _
      rw [hpc, if_neg (Nat.succ_ne_zero pc)]
      rfl
    rw [hrun]
    unfold Callable.refusal
    dsimp only
    cases hop : proto.code[pc]? with
    | none =>
      unfold Interpreter.complete
      rw [hop]
      rfl
    | some op =>
      have hnever : ¬ op.maySuspend := fun hmay => hinvalid ⟨pc, op, rfl, hop, hmay⟩
      rw [Interpreter.complete_never hop hnever]
      rfl
  | routine r =>
    cases hbody
    obtain ⟨k, rfl⟩ : ∃ k, pc = k + 1 := by
      refine Nat.exists_eq_succ_of_ne_zero fun hzero => ?_
      subst hzero
      cases r with
      | recurse | sharedSum | echo => exact hinvalid rfl
      | tailStep | bounce => cases hchecks
    cases r with
    | recurse packed =>
      show (if s.frame.index = 0 then _ else _ : Body F S Unit) s = _
      rw [hpc, if_neg (Nat.succ_ne_zero _), if_pos (by omega)]
      rfl
    | sharedSum add3 =>
      show (Routine.sumEntry add3 s.frame.index >>= fun _ => _ : Body F S Unit) s = _
      rw [hpc]
      rfl
    | echo =>
      show (Routine.echoInput s.frame.index >>= fun _ => _ : Body F S Unit) s = _
      rw [hpc]
      rfl
    | tailStep | bounce => cases hchecks
  | builtin | protectedCall | wrapped | host => cases hbody

end Runs

/-! ## Bodies that do not look at their index -/

namespace Routine

/-- Ends with `acc` where the count is 0, else asks for a tail call with the count below and the
sum above. -/
def countdown (body : String) (target : Val) (callees : List Val) (n acc : Val) : M F S Unit := do
  let n ← integer n body
  if n = 0 then give acc
  else
    let acc ← successor acc
    requestTailCall target (callees ++ [← predecessor n, acc])

/-- The count of a body that does not look at its index, with the values of its slots. -/
def count? (v : Nat → Val) : Routine → Option (M F S Unit)
  | .tailStep => some (countdown tailStep.name (v 0) [v 0] (v 1) (v 2))
  | .bounce => some (countdown bounce.name (v 1) [v 1, v 0] (v 2) (v 3))
  | .recurse _ | .sharedSum _ | .echo => none

/-- Such a body counts, whatever its index. -/
theorem run_count {r : Routine} {x : M F S Unit} {s : Active F S}
    (hcount : r.count? (s.frame.view.get s.machine.thread.stack s.machine.heap.cells) = some x)
    (fuel : Nat) (P : Perform F S) : r.run fuel P s = Body.lift x s := by
  cases r with
  | tailStep =>
    cases hcount
    have hrun : runTailStep s = (do
        let n ← Body.lift (integer (s.frame.view.get s.machine.thread.stack s.machine.heap.cells 1)
          tailStep.name)
        let acc ← Body.getSlot 2
        Body.lift (if n = 0 then give acc else do
          let acc ← successor acc
          let self := s.frame.view.get s.machine.thread.stack s.machine.heap.cells 0
          requestTailCall self [self, ← predecessor n, acc]) : Body F S Unit) s := rfl
    refine hrun.trans ?_
    unfold countdown integer
    cases (s.frame.view.get s.machine.thread.stack s.machine.heap.cells 1).toInt? <;> rfl
  | bounce =>
    cases hcount
    have hrun : runBounce s = (do
        let n ← Body.lift (integer (s.frame.view.get s.machine.thread.stack s.machine.heap.cells 2)
          bounce.name)
        let self ← Body.getSlot 0
        let other ← Body.getSlot 1
        let acc ← Body.getSlot 3
        Body.lift (if n = 0 then give acc else do
          let acc ← successor acc
          requestTailCall other [other, self, ← predecessor n, acc]) : Body F S Unit) s := rfl
    refine hrun.trans ?_
    unfold countdown integer
    cases (s.frame.view.get s.machine.thread.stack s.machine.heap.cells 2).toInt? <;> rfl
  | recurse | sharedSum | echo => cases hcount

theorem successor_ends (v : Val) (m : Machine F S) :
    (∃ e, successor v m = .error e m ∧ e.Plain) ∨ ∃ w, successor v m = .ok w m := by
  unfold successor
  cases BinOp.add.apply v (.int 1) with
  | error f => exact .inl ⟨_, rfl, trivial⟩
  | ok w? =>
    cases w? with
    | none => exact .inl ⟨_, rfl, trivial⟩
    | some w => exact .inr ⟨w, rfl⟩

theorem predecessor_ends (n : Int64) (m : Machine F S) :
    (∃ e, predecessor n m = .error e m ∧ e.Plain) ∨ ∃ w, predecessor n m = .ok w m := by
  unfold predecessor
  cases Integer.checkedSub n 1 with
  | none => exact .inl ⟨_, rfl, trivial⟩
  | some k => exact .inr ⟨.int k, rfl⟩

/-- A count is not suspended, and changes nothing but the result channel. -/
theorem countdown_ends (body : String) (target : Val) (callees : List Val) (n acc : Val)
    (m : Machine F S) : (∃ e, countdown body target callees n acc m = .error e m ∧ e.Plain) ∨
      ∃ r, countdown body target callees n acc m =
        .ok () { m with thread := { m.thread with results := r } } := by
  unfold countdown integer
  cases n.toInt? with
  | none => exact .inl ⟨_, rfl, trivial⟩
  | some n =>
    show (∃ e, (if n = 0 then _ else _ : M F S Unit) m = .error e m ∧ e.Plain) ∨
      ∃ r, (if n = 0 then _ else _ : M F S Unit) m = _
    by_cases hzero : n = 0
    · rw [if_pos hzero]
      exact .inr ⟨_, rfl⟩
    · rw [if_neg hzero]
      obtain ⟨e, hsum, he⟩ | ⟨sum, hsum⟩ := successor_ends acc m
      · exact .inl ⟨e, bind_of_error hsum, he⟩
      obtain ⟨e, hrest, he⟩ | ⟨rest, hrest⟩ := predecessor_ends n m
      · exact .inl ⟨e, (bind_of_ok hsum).trans (bind_of_error hrest), he⟩
      · exact .inr ⟨_, (bind_of_ok hsum).trans (bind_of_ok hrest)⟩

theorem count_ends {v : Nat → Val} {r : Routine} {x : M F S Unit} (h : r.count? v = some x)
    (m : Machine F S) : (∃ e, x m = .error e m ∧ e.Plain) ∨
      ∃ r, x m = .ok () { m with thread := { m.thread with results := r } } := by
  cases r with
  | tailStep | bounce => cases h; exact countdown_ends ..
  | recurse | sharedSum | echo => cases h

end Routine

/-! ## Re-entries with no link below -/

section Reentries

variable [HostBody F S] {f : FnId} {n fuel index : Nat} {m : Machine F S}

/-- With no link below it, a body goes on with its saved slots, and with the values of the resume
as results. -/
theorem reenterFunction_bare {name : String} {layout : Layout} {body : Body F S Unit}
    (hbody : (m.heap.function f).body? fuel (perform (n + 1)) f = some (name, layout, body))
    (hindex : index ≠ 0) (saved : Saved) (values : List Val) (window : View) : ∃ s t,
      (∀ i, s.slot i = (window.restore m.thread.stack saved.slots).slot i) ∧
      reenterFunction fuel (perform (n + 1)) ⟨f, index, saved⟩ [] values window m =
        runBody f body ⟨⟨window.base, saved.top⟩, index, layout.slots, saved.varargs⟩
          ((m.restack s t).withResults values) := by
  obtain ⟨s, t, hslots, -, hrun⟩ := reopen_ok (α := Unit) layout window index saved m
  refine ⟨s, t, hslots, (reenterFunction_body hbody [] values window).trans ?_⟩
  rw [reenterBody_eq _ _ _ _ _ _ hindex, hrun]
  rfl

/-- A step has changed no object, no global and no metatable, and has noted no write. -/
structure Machine.Unwritten (m u : Machine F S) : Prop where
  heap : u.heap = m.heap
  world : u.world = m.world
  journal : u.journal = m.journal

/-- **Refusals.** A body that looks at its index is not re-entered where it does not wait. -/
theorem reentry_refused (hchecks : (m.heap.function f).Checks index)
    (hinvalid : ¬ (m.heap.function f).SuspendsAt index) (saved : Saved) (values : List Val)
    (window : View) : ∃ u, m.Unwritten u ∧
      (u.thread.results = m.thread.results ∨ u.thread.results = .ofValues values) ∧
      reenterFunction fuel (perform (n + 1)) ⟨f, index, saved⟩ [] values window m =
        .error (.fault (.contract ((m.heap.function f).refusal index))) u := by
  obtain ⟨name, layout, body, hbody⟩ : ∃ name layout body,
      (m.heap.function f).body? fuel (perform (n + 1)) f = some (name, layout, body) := by
    cases hc : m.heap.function f with
    | closure | routine => exact ⟨_, _, _, rfl⟩
    | builtin | protectedCall | wrapped | host => rw [hc] at hchecks; cases hchecks
  by_cases hindex : index = 0
  · subst hindex
    refine ⟨m, ⟨rfl, rfl, rfl⟩, .inl rfl, (reenterFunction_body hbody [] values window).trans ?_⟩
    rw [reenterBody_zero, ← Callable.body?_name hbody]
    rfl
  · obtain ⟨s, t, -, hrun⟩ := reenterFunction_bare hbody hindex saved values window
    refine ⟨(m.restack s t).withResults values, ⟨rfl, rfl, rfl⟩, .inr rfl, hrun.trans ?_⟩
    rw [runBody_eq, run_refused hbody hindex hchecks hinvalid]
    rfl

/-- **Counts.** A body that does not look at its index counts down from its saved slots. -/
theorem reentry_counts {r : Routine} (hf : m.heap.function f = .routine r) (hindex : index ≠ 0)
    (saved : Saved) (values : List Val) (window : View) : ∃ u, m.Unwritten u ∧
      u.thread.results = .ofValues values ∧
      (∀ i < saved.slots.length, window.slot u.thread.stack i = saved.slots.getD i .nil) ∧
      ∀ x, r.count? (window.get u.thread.stack u.heap.cells) = some x →
        reenterFunction fuel (perform (n + 1)) ⟨f, index, saved⟩ [] values window m = x u := by
  have hbody : (m.heap.function f).body? fuel (perform (n + 1)) f =
      some (r.name, r.layout, r.run fuel (perform (n + 1))) := by
    rw [hf]
    rfl
  obtain ⟨s, t, hslots, hrun⟩ := reenterFunction_bare hbody hindex saved values window
  refine ⟨(m.restack s t).withResults values, ⟨rfl, rfl, rfl⟩, rfl, fun i hi => ?_,
    fun x hx => hrun.trans ?_⟩
  · refine (hslots _).trans ?_
    rw [View.slot_restore, if_pos (by omega), Nat.add_sub_cancel_left]
  · let start : Active F S := ⟨⟨⟨window.base, saved.top⟩, index, r.layout.slots, saved.varargs⟩,
      (m.restack s t).withResults values⟩
    -- the slots of a window depend on where it begins only
    have hvalues : start.frame.view.get start.machine.thread.stack start.machine.heap.cells =
        window.get start.machine.thread.stack start.machine.heap.cells := rfl
    have hcount : r.run fuel (perform (n + 1)) start = Body.lift x start :=
      Routine.run_count ((congrArg r.count? hvalues).trans hx) fuel _
    rw [runBody_eq, hcount]
    unfold Body.lift leaveBody
    obtain ⟨e, hend, he⟩ | ⟨_, hend⟩ := Routine.count_ends hx ((m.restack s t).withResults values)
    · dsimp only
      rw [hend]
      cases e with
      | suspend => exact he.elim
      | fault | overflow | exhausted => rfl
    · dsimp only
      rw [hend]

end Reentries

/-- **Where bodies can be re-entered.** With no link below it, a compiled body, and a hand-written
one that looks at its index, is re-entered only at an index at which it can be suspended: at any
other one, and every body at index 0, it is refused with a broken contract, without a write to an
object or a request for a tail call. The bodies that count down by tail calls never suspend, but
they are refused at index 0 only. At any other index they count down from their saved slots, which
writes to no object either. -/
theorem invalid_reentries [HostBody F S] (n fuel index : Nat) (f : FnId) (saved : Saved)
    (values : List Val) (window : View) (m : Machine F S) :
    ((m.heap.function f).Checks index → ¬ (m.heap.function f).SuspendsAt index →
      ∃ u, m.Unwritten u ∧
        (u.thread.results = m.thread.results ∨ u.thread.results = .ofValues values) ∧
        reenterFunction fuel (perform (n + 1)) ⟨f, index, saved⟩ [] values window m =
          .error (.fault (.contract ((m.heap.function f).refusal index))) u) ∧
    ∀ r, m.heap.function f = .routine r → index ≠ 0 →
      ∃ u, m.Unwritten u ∧ u.thread.results = .ofValues values ∧
        (∀ i < saved.slots.length, window.slot u.thread.stack i = saved.slots.getD i .nil) ∧
        ∀ x, r.count? (window.get u.thread.stack u.heap.cells) = some x →
          reenterFunction fuel (perform (n + 1)) ⟨f, index, saved⟩ [] values window m = x u ∧
          ∀ t, EndsIn (x u) t → m.Unwritten t := by
  refine ⟨fun hchecks hinvalid => reentry_refused hchecks hinvalid saved values window,
    fun r hf hindex => ?_⟩
  obtain ⟨u, hu, hresults, hslots, hcounts⟩ := reentry_counts hf hindex saved values window
  refine ⟨u, hu, hresults, hslots, fun x hx => ⟨hcounts x hx, fun t ht => ?_⟩⟩
  obtain ⟨e, hend, -⟩ | ⟨_, hend⟩ := Routine.count_ends hx u
  · rw [hend] at ht
    obtain ⟨-, rfl⟩ := ht
    exact hu
  · rw [hend] at ht
    obtain rfl := ht
    exact ⟨hu.heap, hu.world, hu.journal⟩

/-- A body that has no index to be suspended at returns a value when it is re-entered. -/
theorem tailStep_reentered :
    let m : Machine Empty PUnit :=
      start ⟨#[], #[], #[.routine .tailStep], #[]⟩ ⟨200, 16, 100⟩ none ⟨⟩
    let link : Link := ⟨⟨0⟩, 1, ⟨[.nil, .value (.int 0), .value (.int 7)], 3, []⟩⟩
    ¬ (m.heap.function link.function).SuspendsAt link.index ∧
      ∃ u, reenterFunction 1 (perform 1) link [] [] .root m = .ok () u ∧
        u.thread.results = .ofValues [.int 7] :=
  ⟨id, _, rfl, rfl⟩

end ScriptCore
