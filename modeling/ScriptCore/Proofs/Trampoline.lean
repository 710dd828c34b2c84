import ScriptCore.Proofs.ChannelRequests
import ScriptCore.Proofs.Relays

/-!
# Tail calls of a request

A body may end with a tail call in place of results. The request that runs the body carries it out
before it ends: it takes the target and the arguments from the channel, calls the target once on
these arguments from the base of its own window on, and goes on like this until a body leaves
values (`Hops`). So the calls of a request are, after the first one, the tail calls that bodies ask
for, in their order; a request that is suspended or fails does so in the last of them.
`result_channel_sound` puts this together with the reads of the channel.
-/

namespace ScriptCore

open Machine

variable {F S : Type}

/-- What a request does before the tail calls: it calls its target, or re-enters its outermost
link. -/
def Machine.Runner.first [HostBody F S] (r : Runner F S) : Request → M F S Unit
  | .call window target => invoke r window target
  | .replay [] values _ => giveAll values
  | .replay (link :: inner) values window => reenter r link inner values window

/-- From `m` to `t` a tail call is taken from the channel, and its arguments become the live slots
of a window; nothing else is changed but slots from the base of the window on. -/
structure Machine.Takes (base : Nat) (args : List Val) (m t : Machine F S) : Prop where
  live : (⟨base, args.length⟩ : View).valuesFrom t.thread.stack t.heap.cells 0 = args
  rest : ∃ s x, Stack.KeptBelow base m.thread.stack s ∧
    t = { m with thread := { m.thread with results := .ofValues args, stack := s }, trace := x }

/-- The tail calls that are carried out one after another from a machine on, and how they end. -/
inductive Hops [HostBody F S] (r : Runner F S) (base : Nat) :
    List (Val × List Val) → Machine F S → EStateM.Result Unwind (Machine F S) Unit → Prop
  /-- The last body has left values. -/
  | settled {m : Machine F S} (h : m.thread.results.Settled) : Hops r base [] m (.ok () m)
  /-- The tail call that the last body has asked for is called, and returns. -/
  | returned {m t u : Machine F S} {target : Val} {args : List Val} {calls : List (Val × List Val)}
    {res : EStateM.Result Unwind (Machine F S) Unit} (hasked : m.thread.results = .tailCall target args)
    (htaken : m.Takes base args t) (hcall : invoke r ⟨base, args.length⟩ target t = .ok () u)
    (hrest : Hops r base calls u res) : Hops r base ((target, args) :: calls) m res
  /-- It is called, and is left early. -/
  | left {m t u : Machine F S} {target : Val} {args : List Val} {e : Unwind}
    (hasked : m.thread.results = .tailCall target args) (htaken : m.Takes base args t)
    (hcall : invoke r ⟨base, args.length⟩ target t = .error e u) :
    Hops r base [(target, args)] m (.error e u)

section Drain

variable [HostBody F S] {r : Runner F S} {base : Nat}

/-- A pending tail call is called once, with its arguments loaded into the window. -/
theorem drain_load {m : Machine F S} {target : Val} {args : List Val}
    (h : m.thread.results = .tailCall target args) (window : View) :
    ∃ y, ∀ (r : Runner F S) n, drain r window (n + 1) m =
      (invoke r ⟨window.base, args.length⟩ target >>= fun _ =>
        drain r ⟨window.base, args.length⟩ n)
          ((m.withResults args).restack (window.load m.thread.stack args).2 y) := by
  have htake : (onResults Results.takeTailCall : M F S (Option Val)) m =
      .ok (some target) (m.withResults args) := takeTailCall_ok h
  have hget : (get : M F S (Machine F S)) (m.withResults args) = .ok (m.withResults args) _ := rfl
  obtain ⟨x, hload⟩ := onStack_ok (window.load · args) (m.withResults args)
  obtain ⟨y, hrecord⟩ := record_ok ((m.withResults args).restack (window.load m.thread.stack args).2 x)
    fun _ => .tailCall target.kind args.length
  refine ⟨y, fun r n => ?_⟩
  exact (bind_of_ok htake).trans ((bind_of_ok hget).trans ((bind_of_ok hload).trans
    (bind_of_ok hrecord)))

theorem drain_taken {m : Machine F S} {target : Val} {args : List Val}
    (h : m.thread.results = .tailCall target args) (window : View) :
    ∃ t, m.Takes window.base args t ∧ (⟨window.base, args.length⟩ : View).Carries t args ∧
      ∀ (r : Runner F S) n, drain r window (n + 1) m =
        (invoke r ⟨window.base, args.length⟩ target >>= fun _ =>
          drain r ⟨window.base, args.length⟩ n) t := by
  obtain ⟨y, hdrain⟩ := drain_load h window
  have hslots := View.slot_load window m.thread.stack args
  refine ⟨_, ⟨?_, (window.load m.thread.stack args).2, y, View.keptBelow_load .., rfl⟩, ⟨rfl, hslots⟩,
    hdrain⟩
  refine (congrArg _ (Nat.zero_add args.length)).symm.trans ?_
  exact Interpreter.values_of_slots _ fun i hi => by rw [Nat.zero_add]; exact hslots i hi

/-- Tail calls are carried out one after another. -/
theorem drain_hops {window : View} {n : Nat} {m : Machine F S} (h : ¬ Exhausted (drain r window n m)) :
    ∃ calls, Hops r window.base calls m (drain r window n m) := by
  induction n generalizing window m with
  | zero => exact (h ⟨m, rfl⟩).elim
  | succ n ih =>
    cases hresults : m.thread.results with
    | mk args pending =>
      cases pending with
      | none =>
        have hsettled : m.thread.results.Settled := by rw [hresults]; rfl
        rw [drain_idle r hsettled]
        exact ⟨[], .settled hsettled⟩
      | some target =>
        obtain ⟨t, htaken, -, hdrain⟩ := drain_taken hresults window
        rw [hdrain] at h ⊢
        cases hcall : invoke r ⟨window.base, args.length⟩ target t with
        | error e u =>
          rw [bind_of_error hcall]
          exact ⟨_, .left hresults htaken hcall⟩
        | ok a u =>
          rw [bind_of_ok hcall] at h ⊢
          obtain ⟨calls, hcalls⟩ := ih h
          exact ⟨_, .returned hresults htaken hcall hcalls⟩

end Drain

/-- What a request does: it ends early before any tail call, or carries out those that are asked
for. -/
def Carries [HostBody F S] (r : Runner F S) (request : Request) (m : Machine F S)
    (calls : List (Val × List Val)) (res : EStateM.Result Unwind (Machine F S) Unit) : Prop :=
  (calls = [] ∧ ∃ e u, r.first request m = .error e u ∧ res = .error e u) ∨
    ∃ u, r.first request m = .ok () u ∧ Hops r request.window.base calls u res

theorem step_carries [HostBody F S] {r : Runner F S} {n : Nat} {request : Request} {m : Machine F S}
    (h : ¬ Exhausted (step r n request m)) : ∃ calls, Carries r request m calls (step r n request m) := by
  have hrun : ∀ window : View, step r n request = (r.first request >>= fun _ => drain r window n) →
      request.window = window → ∃ calls, Carries r request m calls (step r n request m) := by
    rintro window heq rfl
    rw [heq] at h ⊢
    cases hfirst : r.first request m with
    | error e u =>
      rw [bind_of_error hfirst]
      exact ⟨[], .inl ⟨rfl, e, u, hfirst, rfl⟩⟩
    | ok a u =>
      rw [bind_of_ok hfirst] at h ⊢
      obtain ⟨calls, hcalls⟩ := drain_hops h
      exact ⟨calls, .inr ⟨u, hfirst, hcalls⟩⟩
  cases request with
  | call window target => exact hrun window rfl rfl
  | replay links values window =>
    cases links with
    | nil => exact ⟨[], .inr ⟨_, rfl, .settled rfl⟩⟩
    | cons link inner => exact hrun window rfl rfl

/-! ## What bodies leave -/

section Bodies

/-- A step that is counted ends well if the step under it does. -/
theorem counted_ok {x : M F S Unit} {m u : Machine F S}
    (h : (do Machine.enter; ensuring x leave) m = .ok () u) :
    ∃ v, x (entered m) = .ok () v ∧ u = leave v := by
  rw [Regime.counted_eq] at h
  split at h
  · cases h
  · unfold ensuring at h
    cases hx : x (entered m) with
    | ok a v =>
      rw [hx] at h
      cases h
      exact ⟨v, rfl, rfl⟩
    | error e v =>
      rw [hx] at h
      cases h

variable [HostBody F S] {r : Runner F S} {m u : Machine F S}

/-- A call ends well with what its function has left. -/
theorem invoke_leaves {window : View} {target : Val} (h : invoke r window target m = .ok () u) :
    ∃ f args m' v, r.run f args m' = .ok () v ∧ u = leave v := by
  obtain ⟨_, _, -, h⟩ := ok_of_bind h
  obtain ⟨found, _, -, h⟩ := ok_of_bind h
  obtain ⟨_, _, -, h⟩ := ok_of_bind h
  obtain ⟨args, _, -, h⟩ := ok_of_bind h
  obtain ⟨_, _, -, h⟩ := ok_of_bind h
  obtain ⟨_, t, -, h⟩ := ok_of_bind h
  obtain ⟨v, hv, hu⟩ := counted_ok h
  exact ⟨found.1, args, _, v, hv, hu⟩

/-- A re-entry ends well with what its function has left. -/
theorem reenter_leaves {link : Link} {inner : List Link} {values : List Val} {window : View}
    (h : reenter r link inner values window m = .ok () u) :
    ∃ m' v, r.rerun link inner values window m' = .ok () v ∧ u = leave v := by
  obtain ⟨_, _, -, h⟩ := ok_of_bind h
  obtain ⟨_, t, -, h⟩ := ok_of_bind h
  obtain ⟨v, hv, hu⟩ := counted_ok h
  exact ⟨_, v, hv, hu⟩

open Interpreter in
/-- A body ends at its tail call, which is then in the channel with the values of its registers. -/
theorem loop_tailCall {P : Perform Empty PUnit} {f : FnId} {p : Proto} {pc : Nat} {func : Reg}
    {args : Count} (hop : p.code[pc]? = some (.tailCall func args))
    (hnext : Reg.next? func = some (func.toNat + 1)) (fuel : Nat) (frame : Frame)
    (m : Machine Empty PUnit) :
    loop P f p (fuel + 1) pc ⟨frame, m⟩ = .ok () ⟨frame, { m with
      thread := { m.thread with
        results := .tailCall (frame.view.get m.thread.stack m.heap.cells func.toNat)
          (arguments func args frame m) } }⟩ := by
  unfold loop
  rw [hop]
  exact bind_of_ok (execute_tailCall f frame m hnext)

end Bodies

/-! ## Calls from outside -/

theorem callFromOutside_clear {P : Perform F S} (hP : Settles P) (target : Val) (args : List Val) :
    Clear (callFromOutside P target args) := by
  intro m
  refine attempt_clear (callWith_clear hP .root target args m) (fun _ t ht => ?_) fun e he => ?_
  · obtain ⟨w, u, -, ht⟩ := ok_of_bind ht
    obtain ⟨x, hx⟩ := takeResults_ok (hP.settled ht)
    exact .of_ok hx
  · cases e with
    | suspend s => exact violate_clear (by simp)
    | _ => exact .throw he

theorem Dispatch.run_clear {P : Perform F S} (hP : Settles P) (window : View) (d : Dispatch) :
    Clear (d.run P window) := by
  cases d with
  | call target => exact hP.clear _
  | callWith target args => exact callWith_clear hP window target args
  | callNonresumable target name => exact callNonresumable_clear hP window target name
  | index object key =>
    rw [Dispatch.run, index_eq]
    exact Clear.bind (.after (planIndex_lawful object key) (answer_clear hP window _)) fun _ => .pure _
  | newIndex object key value =>
    rw [Dispatch.run, newIndex_eq]
    exact .after (planNewIndex_lawful object key value) (enact_clear hP window)
  | arith op lhs rhs =>
    rw [Dispatch.run, arith_eq]
    exact Clear.bind (.after (planArith_lawful op lhs rhs) (answer_clear hP window _)) fun _ => .pure _
  | unary op v =>
    rw [Dispatch.run, unary_eq]
    exact Clear.bind (.after (planUnary_lawful op v) (answer_clear hP window _)) fun _ => .pure _
  | replay links values => exact hP.clear _
  | resume co args => exact (resume_clear hP window co args).bind fun _ => .pure _

/-- **The result channel.** Where a request or a resume ends well, the channel holds values. A
channel that holds a tail call is never read: not by a request, a function afresh or re-entered, an
operation or a call from outside. Each tail call that a body asks for is called once, on exactly the
arguments that it asks for, before the request that runs the body ends, whether that request is a
call or a replay and however the call ends. -/
theorem result_channel_sound (n : Nat) :
    (∀ request (m t : Machine Empty PUnit), perform n request m = .ok () t →
      t.thread.results.Settled) ∧
    (∀ window co args (m t : Machine Empty PUnit) o, resume (perform n) window co args m = .ok o t →
      t.thread.results.Settled) ∧
    (∀ request, Clear (perform n request : M Empty PUnit Unit)) ∧
    (∀ fuel f args, Clear (runFunction fuel (perform n) f args : M Empty PUnit Unit)) ∧
    (∀ fuel link inner values window,
      Clear (reenterFunction fuel (perform n) link inner values window : M Empty PUnit Unit)) ∧
    (∀ window (d : Dispatch), Clear (d.run (perform n) window : M Empty PUnit Unit)) ∧
    (∀ target args, Clear (callFromOutside (perform n) target args : M Empty PUnit (List Val))) ∧
    (∀ (p : Proto) f pc func args fuel frame (m : Machine Empty PUnit),
      p.code[pc]? = some (.tailCall func args) → Reg.next? func = some (func.toNat + 1) →
      Interpreter.loop (perform n) f p (fuel + 1) pc ⟨frame, m⟩ = .ok () ⟨frame, { m with
        thread := { m.thread with
          results := .tailCall (frame.view.get m.thread.stack m.heap.cells func.toNat)
            (Interpreter.arguments func args frame m) } }⟩) ∧
    (∀ (r : Runner Empty PUnit) window target m u, invoke r window target m = .ok () u →
      ∃ f args m' v, r.run f args m' = .ok () v ∧ u = leave v) ∧
    (∀ (r : Runner Empty PUnit) link inner values window m u,
      reenter r link inner values window m = .ok () u →
      ∃ m' v, r.rerun link inner values window m' = .ok () v ∧ u = leave v) ∧
    ∀ request (m : Machine Empty PUnit), ¬ Exhausted (perform (n + 1) request m) →
      ∃ calls, Carries (runner n (perform n)) request m calls (perform (n + 1) request m) := by
  have hP := perform_settled n
  refine ⟨fun request m t h => perform_settles h, fun window co args m t o h => resume_settled hP h,
    hP.clear, runFunction_clear hP, reenterFunction_clear hP, Dispatch.run_clear hP,
    callFromOutside_clear hP, ?_, ?_, ?_, ?_⟩
  · intro p f pc func args fuel frame m hop hnext
    exact loop_tailCall hop hnext fuel frame m
  · intro r window target m u h
    exact invoke_leaves h
  · intro r link inner values window m u h
    exact reenter_leaves h
  · intro request m h
    exact step_carries h

end ScriptCore
