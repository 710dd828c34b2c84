import ScriptCore.Proofs.Counters
import ScriptCore.Proofs.Validation

/-!
# Protected calls

A call that is suspended and resumed any number of times is a talk: it yields a list of values,
gets a list of values as reply, and so on until it ends (`talk`). What a protected call makes of
the ending of its callee is `Settled`; a message handler is called once at most, and its outcome
is `Handled`.

A protected call and a re-entry of one settle what their callee does in the window behind the
function (`call_settled`, `replay_settled`). So a talk with a protected call is the talk with its
callee, up to the ending, which is settled (`talk_settled`, `protected_calls`).
-/

namespace ScriptCore

open Machine

variable {F S : Type}

/-! ## Talks -/

/-- What a suspended call goes on with: some values, and the window and the machine at that
time. -/
structure Reply (F S : Type) where
  values : List Val
  window : View
  machine : Machine F S

/-- A call that is suspended and resumed. -/
structure Talk (F S : Type) where
  /-- What it yields, as far as there is a reply. -/
  yields : List (List Val)
  /-- The window and the machine with which it was last entered. -/
  window : View
  entry : Machine F S
  ending : EStateM.Result Unwind (Machine F S) Unit

/-- The talk of a call that was entered with a window and a machine and has come to an ending, if
it gets some replies. -/
def talk [HostBody F S] (n : Nat) (window : View) (entry : Machine F S)
    (ending : EStateM.Result Unwind (Machine F S) Unit) : List (Reply F S) → Talk F S
  | [] => ⟨[], window, entry, ending⟩
  | reply :: replies =>
    match ending with
    | .error (.suspend s) _ =>
      let rest := talk n reply.window reply.machine
        (perform n (.replay s.chain reply.values reply.window) reply.machine) replies
      { rest with yields := s.values :: rest.yields }
    | _ => ⟨[], window, entry, ending⟩

/-- A call that is not suspended gets no reply. -/
theorem talk_ended [HostBody F S] {n : Nat} {window : View} {entry : Machine F S}
    {ending : EStateM.Result Unwind (Machine F S) Unit}
    (h : ∀ s t, ending ≠ .error (.suspend s) t) (replies : List (Reply F S)) :
    talk n window entry ending replies = ⟨[], window, entry, ending⟩ := by
  cases replies with
  | nil => rfl
  | cons reply replies =>
    cases ending with
    | ok a t => rfl
    | error e t =>
      cases e with
      | suspend s => exact (h s t rfl).elim
      | fault | overflow | exhausted => rfl

/-! ## Endings of protected calls -/

/-- The machine with some values as results. -/
def Machine.giving (m : Machine F S) (values : List Val) : Machine F S :=
  { m with thread := { m.thread with results := .ofValues values } }

/-- What the call of a message handler comes to: its first result, the value of a fault, or a
broken contract. It cannot be suspended. -/
inductive Handled : EStateM.Result Unwind (Machine F S) Unit → Except Unwind Val → Machine F S → Prop
  | returned {u : Machine F S} :
    Handled (.ok () u) (.ok (u.thread.results.values.getD 0 .nil)) (leaveBoundary u)
  | failed {f : Fault} {u : Machine F S} (hf : f.isCatchable) :
    Handled (.error (.fault f) u) (.ok f.value) (leaveBoundary u)
  | yielded {s : Suspension} {u : Machine F S} :
    Handled (.error (.suspend s) u) (.ok (Fault.yieldAcrossBoundary "xpcall handler").value)
      (leaveBoundary u)
  | broken {f : Fault} {u : Machine F S} (hf : ¬ f.isCatchable) :
    Handled (.error (.fault f) u) (.error (.fault f)) (leaveBoundary u)
  | stuck {e : Unwind} {u : Machine F S} (he : ¬ e.Regular) :
    Handled (.error e u) (.error e) (leaveBoundary u)

/-- How a protected call ends if its callee ends in some way. The handler is called on a window
with the value of a caught fault and nothing else. -/
inductive Settled (P : Perform F S) (g : FnId) (p : Protection) (handler : Val) (window : View) :
    EStateM.Result Unwind (Machine F S) Unit → EStateM.Result Unwind (Machine F S) Unit → Prop
  | returned {t : Machine F S} : Settled P g p handler window (.ok () t)
    (.ok () (leave (t.giving (.bool true :: t.thread.results.values))))
  | suspended {s : Suspension} {t : Machine F S} (x : Option (Array TraceEvent)) :
    Settled P g p handler window (.error (.suspend s) t)
      (.error (.suspend ⟨s.values, ⟨g, 1, ⟨[], 0, [handler]⟩⟩ :: s.chain⟩)
        (leave { t with trace := x }))
  | caught {f : Fault} {t : Machine F S} (x : Option (Array TraceEvent)) (hf : f.isCatchable)
    (hp : p = .plain) : Settled P g p handler window (.error (.fault f) t)
      (.ok () (leave ({ t with trace := x }.giving [.bool false, f.value])))
  | handled {f : Fault} {t u : Machine F S} {v : Val} (x : Option (Array TraceEvent))
    (hf : f.isCatchable) (hp : p = .handler)
    (hcall : Handled (P (.call ⟨window.base, 1⟩ handler)
      (bounded (t.restack (window.load t.thread.stack [f.value]).2 x))) (.ok v) u) :
    Settled P g p handler window (.error (.fault f) t)
      (.ok () (leave (u.giving [.bool false, v])))
  | unhandled {f : Fault} {t u : Machine F S} {e : Unwind} (x : Option (Array TraceEvent))
    (hf : f.isCatchable) (hp : p = .handler)
    (hcall : Handled (P (.call ⟨window.base, 1⟩ handler)
      (bounded (t.restack (window.load t.thread.stack [f.value]).2 x))) (.error e) u) :
    Settled P g p handler window (.error (.fault f) t) (.error e (leave u))
  | broken {f : Fault} {t : Machine F S} (hf : ¬ f.isCatchable) :
    Settled P g p handler window (.error (.fault f) t) (.error (.fault f) (leave t))
  | stuck {e : Unwind} {t : Machine F S} (he : ¬ e.Regular) :
    Settled P g p handler window (.error e t) (.error e (leave t))

namespace Protection

/-- How many arguments stand before those of the callee: the callee, and a message handler. -/
def leading : Protection → Nat
  | .plain => 1
  | .handler => 2

/-- The message handler, if there is one. -/
def messageHandler (p : Protection) (w : View) (m : Machine F S) : Val :=
  match p with
  | .plain => .nil
  | .handler => w.get m.thread.stack m.heap.cells 1

end Protection

section Endings

variable [HostBody F S] {n : Nat} {g : FnId} {p : Protection} {handler : Val} {window : View}

/-- The handler is called once, and cannot yield. -/
theorem handled_handled (window : View) (handler v : Val) (m : Machine F S) :
    ∃ x c u, Handled (perform n (.call ⟨window.base, 1⟩ handler)
        (bounded (m.restack (window.load m.thread.stack [v]).2 x))) c u ∧
      Base.handled (perform n) window handler v m =
        match c with
        | .ok v => .ok v u
        | .error e => .error e u := by
  obtain ⟨x, hload⟩ := onStack_ok (window.load · [v]) m
  have hrun : Base.handled (perform n) window handler v m = _ := bind_of_ok hload
  rw [attempt_bind, callNonresumable_eq] at hrun
  refine ⟨x, ?_⟩
  cases hcall : perform n (.call ⟨window.base, 1⟩ handler)
      (bounded (m.restack (window.load m.thread.stack [v]).2 x)) with
  | ok a u =>
    simp only [View.load_fst, List.length_singleton, hcall] at hrun
    refine ⟨_, _, .returned, hrun.trans ?_⟩
    have hpending : u.thread.results.pending = none := perform_settles hcall
    have hleft : (leaveBoundary u).thread.results.pending = none := hpending
    exact result_ok hleft 0
  | error e u =>
    simp only [View.load_fst, List.length_singleton, hcall] at hrun
    cases e with
    | suspend s => exact ⟨_, _, .yielded, hrun⟩
    | fault f =>
      by_cases hf : f.isCatchable
      · exact ⟨_, _, .failed hf, hrun.trans (by simp only [hf]; rfl)⟩
      · exact ⟨_, _, .broken hf, hrun.trans (by simp only [hf]; rfl)⟩
    | overflow => exact ⟨_, _, .stuck id, hrun⟩
    | exhausted => exact ⟨_, _, .stuck id, hrun⟩

/-- A protected call settles the ending of its callee, and is counted out. -/
theorem settle_settled {x : M F S Unit} {m : Machine F S}
    (hx : ∀ t, x m = .ok () t → t.thread.results.pending = none) :
    Settled (perform n) g p handler window (x m)
      (ensuring (attempt x >>= Base.settle (perform n) g p window handler) leave m) := by
  unfold ensuring
  rw [attempt_bind]
  cases hxm : x m with
  | ok a t =>
    have hprepend : (prependResult (.bool true) : M F S Unit) t =
        .ok () (t.giving (.bool true :: t.thread.results.values)) := by
      show (orViolate (t.thread.results.prepend (.bool true)) >>= setChannel) t = _
      rw [Results.prepend, Results.read, Results.isTailCall, hx t hxm]
      rfl
    simp only [Base.settle, hprepend]
    exact .returned
  | error e t =>
    cases e with
    | suspend s =>
      obtain ⟨y, hy⟩ := suspendWith_ok g 1 ⟨[], 0, [handler]⟩ s t
      simp only [Base.settle, hy]
      exact .suspended y
    | fault f =>
      by_cases hf : f.isCatchable
      · obtain ⟨y, hy⟩ := record_ok t fun _ => .caught p.name (t.heap.message f)
        cases p with
        | plain =>
          have hsettle : Base.settle (perform n) g .plain window handler (.error (.fault f)) t =
              .ok () ({ t with trace := y }.giving [.bool false, f.value]) := by
            simp only [Base.settle, hf]
            exact bind_of_ok hy
          simp only [hsettle]
          exact .caught y hf rfl
        | handler =>
          obtain ⟨x, c, u, hcall, hhandled⟩ :=
            handled_handled (n := n) window handler f.value { t with trace := y }
          have hsettle : Base.settle (perform n) g .handler window handler (.error (.fault f)) t =
              (do giveAll [.bool false, ← Base.handled (perform n) window handler f.value])
                { t with trace := y } := by
            simp only [Base.settle, hf]
            exact bind_of_ok hy
          cases c with
          | ok v =>
            simp only [hsettle, bind_of_ok hhandled]
            exact .handled x hf rfl hcall
          | error e =>
            simp only [hsettle, bind_of_error hhandled]
            exact .unhandled x hf rfl hcall
      · simp only [Base.settle, hf]
        exact .broken hf
    | overflow => exact .stuck id
    | exhausted => exact .stuck id

omit [HostBody F S] in
/-- A protected call that ends with values was not stopped for want of fuel. -/
theorem Settled.values {P : Perform F S} {inner : EStateM.Result Unwind (Machine F S) Unit}
    {u : Machine F S} (h : Settled P g p handler window inner (.ok () u)) :
    (∃ values, u.thread.results = .ofValues values) ∧ ∀ t, inner ≠ .error .exhausted t := by
  generalize hr : EStateM.Result.ok () u = r at h
  cases h <;> cases hr <;> exact ⟨⟨_, rfl⟩, fun t ht => by cases ht⟩

omit [HostBody F S] in
/-- A message handler is not suspended. -/
theorem Handled.unsuspended {r : EStateM.Result Unwind (Machine F S) Unit} {c : Except Unwind Val}
    {u : Machine F S} (h : Handled r c u) {s : Suspension} : c ≠ .error (.suspend s) := by
  rintro rfl
  cases h with
  | stuck he => exact he trivial

omit [HostBody F S] in
/-- A protected call is suspended with its callee, and only then. -/
theorem Settled.suspended_or {P : Perform F S}
    {inner outer : EStateM.Result Unwind (Machine F S) Unit}
    (h : Settled P g p handler window inner outer) :
    (∃ s t x, inner = .error (.suspend s) t ∧
      outer = .error (.suspend ⟨s.values, ⟨g, 1, ⟨[], 0, [handler]⟩⟩ :: s.chain⟩)
        (leave { t with trace := x })) ∨
    (∀ s t, inner ≠ .error (.suspend s) t) ∧ ∀ s t, outer ≠ .error (.suspend s) t := by
  cases h with
  | suspended x => exact .inl ⟨_, _, x, rfl, rfl⟩
  | unhandled x hf hp hcall =>
    refine .inr ⟨fun s t h => ?_, fun s t h => ?_⟩ <;> cases h
    exact hcall.unsuspended rfl
  | stuck he => refine .inr ⟨fun s t h => ?_, fun s t h => ?_⟩ <;> cases h <;> exact he trivial
  | returned | caught | handled | broken =>
    refine .inr ⟨fun s t h => ?_, fun s t h => ?_⟩ <;> cases h

omit [HostBody F S] in
/-- No tail call is pending behind a protected call that ends with values. -/
theorem Settled.idle {P : Perform F S} {inner : EStateM.Result Unwind (Machine F S) Unit}
    {u : Machine F S} (h : Settled P g p handler window inner (.ok () u)) :
    u.thread.results.pending = none := by
  obtain ⟨⟨values, hvalues⟩, -⟩ := h.values
  rw [hvalues]
  rfl

/-- A request that runs a protected call or re-enters it settles what the callee does, and then
there is no tail call to carry out. -/
theorem Settled.of_counted {x y : M F S Unit} {w : View} {m m' : Machine F S} {request : Request}
    (hx : x m = ensuring y leave m')
    (hy : y m' = (attempt (perform n request) >>= Base.settle (perform n) g p window handler) m') :
    Settled (perform n) g p handler window (perform n request m')
      ((do x; drain (runner n (perform n)) w n) m) := by
  have hsettled : Settled (perform n) g p handler window (perform n request m') (x m) := by
    rw [hx, ensuring_congr hy]
    exact settle_settled fun t ht => perform_settles ht
  cases hxm : x m with
  | error e u =>
    rw [hxm] at hsettled
    rw [bind_of_error hxm]
    exact hsettled
  | ok a u =>
    rw [hxm] at hsettled
    obtain ⟨⟨values, hvalues⟩, hexhausted⟩ := hsettled.values
    rw [bind_of_ok hxm]
    cases n with
    | zero => exact (hexhausted m' rfl).elim
    | succ n =>
      rw [drain_values _ w n hvalues]
      exact hsettled

omit [HostBody F S] in
theorem checkAny_ok {w : View} {i : Nat} (hi : i < w.top) (name : String) (m : Machine F S) :
    Args.checkAny w (i + 1) name m = .ok (w.get m.thread.stack m.heap.cells i) m := by
  unfold Args.checkAny Args.arg
  rw [if_neg (by omega), if_neg (by omega)]
  rfl

/-- A protected call runs its callee in the window behind the arguments before. -/
theorem runFunction_protected {w : View} {m : Machine F S} (hg : m.heap.function g = .protectedCall p)
    (hargs : p.leading ≤ w.top) :
    runFunction n (perform n) g w m =
      (attempt (perform n (.call (w.child p.leading) (w.get m.thread.stack m.heap.cells 0))) >>=
        Base.settle (perform n) g p (w.child p.leading) (p.messageHandler w m)) m := by
  unfold runFunction
  rw [functionAt_bind, hg]
  cases p with
  | plain => exact bind_of_ok (checkAny_ok hargs _ m)
  | handler =>
    have h0 : 0 < w.top := Nat.lt_of_lt_of_le (by decide) hargs
    exact (bind_of_ok (checkAny_ok h0 _ m)).trans (bind_of_ok (checkAny_ok hargs _ m))

/-- **Protected calls.** A protected call settles what its callee does in the window behind the
arguments before, one call deeper. -/
theorem call_settled {w : View} {m : Machine F S} (hg : m.heap.function g = .protectedCall p)
    (hroom : m.thread.depth < m.world.config.maxCallDepth) (hargs : p.leading ≤ w.top) :
    ∃ x, Settled (perform n) g p (p.messageHandler w m) (w.child p.leading)
      (perform n (.call (w.child p.leading) (w.get m.thread.stack m.heap.cells 0))
        (entered { m with trace := x }))
      (perform (n + 1) (.call w (.fn g)) m) := by
  have hresolve : (resolve w (.fn g) m.world.config.maxMetaChain : M F S (FnId × View)) m =
    .ok (g, w) m := by rw [resolve_fn]; rfl
  obtain ⟨args, u, x, hshape, hinvoke⟩ := Regime.invoke_resolved hresolve
  rw [hg] at hshape
  cases hshape
  replace hinvoke := hinvoke (runner n (perform n))
  rw [Regime.counted_eq, if_neg (Nat.not_le.2 hroom)] at hinvoke
  exact ⟨x, .of_counted hinvoke (runFunction_protected hg hargs)⟩

/-- **Resumed protected calls.** The re-entry of a protected call settles what its callee does when
it goes on in the same window, one call deeper. -/
theorem replay_settled (handler : Val) {w : View} {m : Machine F S} (hg : m.heap.function g = .protectedCall p)
    (hroom : m.thread.depth < m.world.config.maxCallDepth) (inner : List Link)
    (values : List Val) :
    ∃ x, Settled (perform n) g p handler w
      (perform n (.replay inner values w) (entered { m with trace := x }))
      (perform (n + 1) (.replay (⟨g, 1, ⟨[], 0, [handler]⟩⟩ :: inner) values w) m) := by
  obtain ⟨x, hx⟩ := record_ok m fun _ => .replay (m.heap.function g).name 1 inner.length
  let link : Link := ⟨g, 1, ⟨[], 0, [handler]⟩⟩
  have hreenter : reenter (runner n (perform n)) link inner values w m =
      (do enter; ensuring ((runner n (perform n)).rerun link inner values w) leave)
        { m with trace := x } := bind_of_ok hx
  rw [Regime.counted_eq, if_neg (Nat.not_le.2 hroom)] at hreenter
  refine ⟨x, .of_counted hreenter ?_⟩
  have hg' : (entered { m with trace := x }).heap.function g = .protectedCall p := hg
  show reenterFunction n (perform n) link inner values w _ = _
  unfold reenterFunction
  dsimp only [link]
  rw [functionAt_bind, hg']
  rfl

end Endings

/-! ## Talks with protected calls -/

/-- The machine within one more call. -/
def Machine.within (m : Machine F S) (trace : Option (Array TraceEvent)) : Machine F S :=
  entered { m with trace := trace }

/-- The same reply, within one more call. -/
def Reply.within (trace : Option (Array TraceEvent)) (r : Reply F S) : Reply F S :=
  ⟨r.values, r.window, r.machine.within trace⟩

/-- The talk `outer` with a protected call and the talk `inner` with its callee. -/
structure Talk.Protects (P : Perform F S) (g : FnId) (p : Protection) (handler : Val)
    (inner outer : Talk F S) : Prop where
  yields : outer.yields = inner.yields
  ending : Settled P g p handler inner.window inner.ending outer.ending
  /-- The counters are those with which the protected call was last entered. -/
  counters : ∀ u, EndsIn outer.ending u → u.thread.depth = outer.entry.thread.depth ∧
    u.thread.boundaries = outer.entry.thread.boundaries ∧
    u.thread.current = outer.entry.thread.current
  /-- No tail call is pending. -/
  idle : ∀ u, outer.ending = .ok () u → u.thread.results.pending = none

section Talks

variable [HostBody F S] {n : Nat} {g : FnId} {p : Protection} {handler : Val}

/-- Requests give back the counters as they were. -/
theorem perform_counters [QuietHost F S] {request : Request} {m u : Machine F S}
    (h : EndsIn (perform n request m) u) : u.thread.depth = m.thread.depth ∧
      u.thread.boundaries = m.thread.boundaries ∧ u.thread.current = m.thread.current := by
  have hevolves := (Regime.free.perform_agrees (fun _ _ _ _ => trivial) n [] request).evolves
    trivial h
  exact ⟨hevolves.depth, hevolves.boundaries, hevolves.current⟩

/-- **Talks with protected calls.** What is settled once stays so over all replies. -/
theorem talk_settled [QuietHost F S] {w window : View} {m m' : Machine F S}
    {inner outer : EStateM.Result Unwind (Machine F S) Unit}
    (h : Settled (perform n) g p handler window inner outer)
    (hcounters : ∀ u, EndsIn outer u → u.thread.depth = m.thread.depth ∧
      u.thread.boundaries = m.thread.boundaries ∧ u.thread.current = m.thread.current)
    {replies : List (Reply F S)}
    (hreplies : ∀ r ∈ replies, r.machine.heap.function g = .protectedCall p ∧
      r.machine.thread.depth < r.machine.world.config.maxCallDepth) :
    ∃ traces, traces.length = replies.length ∧ Talk.Protects (perform n) g p handler
      (talk n window m' inner (replies.zipWith (fun r x => r.within x) traces))
      (talk (n + 1) w m outer replies) := by
  induction replies generalizing w window m m' inner outer with
  | nil =>
    refine ⟨[], rfl, rfl, h, hcounters, fun u hu => ?_⟩
    obtain rfl : outer = .ok () u := hu
    exact h.idle
  | cons reply replies ih =>
    obtain ⟨hg, hroom⟩ := hreplies reply List.mem_cons_self
    have hrest : ∀ r ∈ replies, r.machine.heap.function g = .protectedCall p ∧
      r.machine.thread.depth < r.machine.world.config.maxCallDepth :=
      fun r hr => hreplies r (List.mem_cons_of_mem _ hr)
    obtain ⟨s, t, y, rfl, rfl⟩ | ⟨hinner, houter⟩ := h.suspended_or
    · obtain ⟨x, hreplay⟩ := replay_settled (n := n) handler (w := reply.window) hg hroom
        s.chain reply.values
      obtain ⟨traces, hlength, hyields, hending, hcounters, hidle⟩ :=
        ih hreplay (fun u hu => perform_counters hu) hrest
      exact ⟨x :: traces, congrArg (· + 1) hlength, congrArg (s.values :: ·) hyields, hending,
        hcounters, hidle⟩
    · refine ⟨List.replicate (replies.length + 1) none, List.length_replicate .., ?_⟩
      rw [talk_ended hinner, talk_ended houter]
      refine ⟨rfl, h, hcounters, fun u hu => ?_⟩
      obtain rfl : outer = .ok () u := hu
      exact h.idle

/-- **Protected calls.** The talk with a protected call is the talk with its callee: it yields the
same values in the same order, hands on the replies, and makes of the ending what `Settled` says.
However it ends, the counters are as they were when it was entered, by its call or by the last
resumption, and no tail call is pending behind its values. -/
theorem protected_calls [QuietHost F S] {w : View} {m : Machine F S}
    (hg : m.heap.function g = .protectedCall p)
    (hroom : m.thread.depth < m.world.config.maxCallDepth) (hargs : p.leading ≤ w.top)
    {replies : List (Reply F S)}
    (hreplies : ∀ r ∈ replies, r.machine.heap.function g = .protectedCall p ∧
      r.machine.thread.depth < r.machine.world.config.maxCallDepth) (n : Nat) :
    ∃ x traces, traces.length = replies.length ∧
      Talk.Protects (perform n) g p (p.messageHandler w m)
        (talk n (w.child p.leading) (m.within x)
          (perform n (.call (w.child p.leading) (w.get m.thread.stack m.heap.cells 0)) (m.within x))
          (replies.zipWith (fun r x => r.within x) traces))
        (talk (n + 1) w m (perform (n + 1) (.call w (.fn g)) m) replies) := by
  obtain ⟨x, h⟩ := call_settled (n := n) hg hroom hargs
  exact ⟨x, talk_settled h (fun u hu => perform_counters hu) hreplies⟩

/-- A coroutine is about to call `pcall(coroutine.yield, "x")`. -/
def protecting : Machine Empty PUnit :=
  { start ⟨#[], #[], #[.protectedCall .plain, .builtin .yield], #[.running]⟩ ⟨200, 2, 100⟩ none ⟨⟩
      with
    thread := ⟨.empty, ⟨#[.value (.fn ⟨1⟩), .value (.str "x")]⟩, 0, 0, some ⟨0⟩⟩ }

/-- It yields, and goes on with a reply. -/
theorem protected_calls_yield :
    protecting.heap.function ⟨0⟩ = .protectedCall .plain ∧
    ∃ x traces, traces.length = [Reply.mk [.int 7] ⟨0, 2⟩ protecting].length ∧
      Talk.Protects (perform 4) ⟨0⟩ .plain (Protection.plain.messageHandler ⟨0, 2⟩ protecting)
        (talk 4 (View.child ⟨0, 2⟩ 1) (protecting.within x)
          (perform 4 (.call (View.child ⟨0, 2⟩ 1)
            (View.get ⟨0, 2⟩ protecting.thread.stack protecting.heap.cells 0)) (protecting.within x))
          ([Reply.mk [.int 7] ⟨0, 2⟩ protecting].zipWith (fun r x => r.within x) traces))
        (talk 5 ⟨0, 2⟩ protecting (perform 5 (.call ⟨0, 2⟩ (.fn ⟨0⟩)) protecting)
          [⟨[.int 7], ⟨0, 2⟩, protecting⟩]) := by
  refine ⟨rfl, protected_calls rfl (by decide) (by decide) ?_ 4⟩
  intro r hr
  obtain rfl := List.mem_singleton.1 hr
  exact ⟨rfl, by decide⟩

example : (talk 5 ⟨0, 2⟩ protecting (perform 5 (.call ⟨0, 2⟩ (.fn ⟨0⟩)) protecting)
    [⟨[.int 7], ⟨0, 2⟩, protecting⟩]).yields = [[.str "x"]] := rfl

end Talks

end ScriptCore
