import ScriptCore.Proofs.CoroutineOrder
import ScriptCore.Proofs.Fuel
import ScriptCore.Proofs.ResumptionChains

/-!
# The counters of the thread

At every point of a run the depth is the number of calls in progress, the boundary count is the
number of non-resumable calls since the innermost resume, and the running coroutine is the one of
that resume (`Accounted`). So neither count is ever taken below zero, and every operation gives
back the counters as it found them.

A stack overflow comes from nothing but a call or a re-entry at the limit of the depth: there it
is raised (`invoke_counts`, `reenter_counts`), and what a function or an operation raises was
raised by one of its requests (`exhausted_of_overflow`). `context_accounting` puts these together.
-/

namespace ScriptCore

open Machine

variable {F S α : Type}

/-! ## What is in progress -/

theorem length_calls (f : FnId) (acts : List Activity) :
    (calls (.call f :: acts)).length = (calls acts).length + 1 := by simp [calls]

/-- The number of non-resumable calls in progress since the innermost resume. -/
def recentBoundaries : List Activity → Nat
  | [] | .resume _ :: _ => 0
  | .boundary :: acts => recentBoundaries acts + 1
  | .call _ :: acts => recentBoundaries acts

/-- The counters of a machine fit what is in progress, and the depth is at most `limit`. -/
structure Accounted (limit : Nat) (acts : List Activity) (m : Machine F S) : Prop where
  config : m.world.config.maxCallDepth = limit
  bounded : m.thread.depth ≤ limit
  depth : m.thread.depth = (calls acts).length
  boundaries : m.thread.boundaries = recentBoundaries acts
  current : m.thread.current = (resumes acts).head?

namespace Accounted

variable {limit : Nat} {acts : List Activity} {m m' : Machine F S}

theorem congr (h : Accounted limit acts m) (hconfig : m'.world.config = m.world.config)
    (hdepth : m'.thread.depth = m.thread.depth)
    (hboundaries : m'.thread.boundaries = m.thread.boundaries)
    (hcurrent : m'.thread.current = m.thread.current) : Accounted limit acts m' :=
  ⟨hconfig ▸ h.config, hdepth ▸ h.bounded, hdepth ▸ h.depth, hboundaries ▸ h.boundaries,
    hcurrent ▸ h.current⟩

/-- A call is in progress where one is left. -/
theorem leave_depth {f : FnId} (h : Accounted limit (.call f :: acts) m) :
    (leave m).thread.depth + 1 = m.thread.depth := by
  have hpos : 0 < m.thread.depth := by
    rw [h.depth, length_calls]
    exact Nat.succ_pos _
  exact Nat.sub_add_cancel hpos

/-- A non-resumable call is in progress where one is left. -/
theorem leaveBoundary_boundaries (h : Accounted limit (.boundary :: acts) m) :
    (leaveBoundary m).thread.boundaries + 1 = m.thread.boundaries := by
  have hpos : 0 < m.thread.boundaries := h.boundaries ▸ Nat.succ_pos (recentBoundaries acts)
  exact Nat.sub_add_cancel hpos

/-- The coroutine before is the running one again. -/
theorem turnedBack {co : CoId} (h : Accounted limit acts m)
    (h' : Accounted limit (.resume co :: acts) m') (c : Coroutine) :
    Accounted limit acts (m'.turnedBack m.thread.current m.thread.boundaries co c) :=
  ⟨h'.config, h'.bounded, h'.depth, h.boundaries, h.current⟩

end Accounted

/-- In a machine that has not run nothing is in progress. -/
theorem accounted_start (heap : Heap F) (config : Config) (trace : Option (Array TraceEvent))
    (host : S) : Accounted config.maxCallDepth [] (Machine.start heap config trace host) :=
  ⟨rfl, Nat.zero_le _, rfl, rfl, rfl⟩

/-! ## Checks at every request -/

/-- Carries out requests, with a check of the machine wherever a request or a function begins or
ends. -/
noncomputable def Watch.everywhere [HostBody F S] (W : Watch F S) :
    Nat → List Activity → Perform F S
  | 0, _, _ => throw .exhausted
  | fuel + 1, acts, request =>
    W.around acts (step (W.runner (W.everywhere fuel) acts fuel) fuel request)

theorem Regime.everywhere_agrees [HostBody F S] [QuietHost F S] {W : Watch F S} (G : Regime W)
    (hlimits : G.Limits) (n : Nat) (acts : List Activity) :
    G.Serves acts (perform n) (W.everywhere n acts) := by
  induction n generalizing acts with
  | zero => exact fun _ _ _ => rfl
  | succ fuel ih =>
    exact fun request m hm =>
      G.around_meets hm (G.step_serves hlimits (G.runs ih acts fuel) fuel request m hm)

/-- Watches the counters. -/
def Watch.counters (limit : Nat) (alarm : M F S Unit) : Watch F S where
  within := Accounted limit
  yields _ := True
  alarm := alarm

/-- **The counters are kept.** -/
def Regime.counters (limit : Nat) (alarm : M F S Unit) : Regime (Watch.counters limit alarm) where
  inv := Accounted limit
  lost _ _ _ := True
  permits _ _ := True
  raises f := ∀ depth, f = .stackOverflow depth → depth = limit
  own := by
    rintro f hf depth rfl
    exact hf.elim
  within h := h
  quiet h hq := h.congr hq.config hq.depth hq.boundaries hq.current
  lost_quiet _ _ := trivial
  host _ h := h.congr rfl rfl rfl rfl
  enter := by
    intro acts m f h hlt
    refine ⟨h.config, h.config ▸ hlt, ?_, h.boundaries, h.current⟩
    rw [length_calls, ← h.depth]
    rfl
  leave := by
    intro acts m f h
    refine ⟨h.config, Nat.le_trans (Nat.sub_le _ 1) h.bounded, ?_, h.boundaries, h.current⟩
    have hdepth := h.leave_depth
    rw [h.depth, length_calls] at hdepth
    exact Nat.succ.inj hdepth
  lost_leave _ := trivial
  enterBoundary h := ⟨h.config, h.bounded, h.depth, congrArg (· + 1) h.boundaries, h.current⟩
  leaveBoundary h := ⟨h.config, h.bounded, h.depth, congrArg (· - 1) h.boundaries, h.current⟩
  yield _ _ _ _ := trivial
  yieldNative _ _ _ _ := trivial
  permits_yield _ := trivial
  link _ _ := trivial
  permits_boundary := trivial
  permits_link _ := trivial
  create _ h := h.congr rfl rfl rfl rfl
  resume h _ := ⟨h.config, h.bounded, h.depth, rfl, rfl⟩
  permits_resume := trivial
  returned h h' := h.turnedBack h' .dead
  yielded h h' _ := h.turnedBack h' _

/-- The limit is the only depth at which a call is refused. -/
theorem Regime.counters_limits (limit : Nat) (alarm : M F S Unit) :
    (Regime.counters limit alarm).Limits := by
  rintro acts m h hmax depth ⟨⟩
  exact Nat.le_antisymm h.bounded (h.config ▸ hmax)

/-! ## Where a stack overflow is raised -/

/-- From the machine `m` a call is counted in and out: at the limit it is refused with the depth,
else `x` is done. -/
def Machine.Counts (m : Machine F S) (x : M F S Unit)
    (r : EStateM.Result Unwind (Machine F S) Unit) : Prop :=
  ∃ m', m.Undisturbed m' ∧
    r = if m.world.config.maxCallDepth ≤ m.thread.depth then
        .error (.fault (.stackOverflow m.thread.depth)) m'
      else ensuring x leave (entered m')

theorem Machine.Undisturbed.counts {m m' : Machine F S} (h : m.Undisturbed m') (x : M F S Unit) :
    m.Counts x ((do enter; ensuring x leave) m') :=
  ⟨m', h, by rw [Regime.counted_eq, h.config, h.depth]⟩

section Sources

variable [HostBody F S]

/-- Following handlers to a function disturbs nothing, also where there is none. -/
theorem resolve_undisturbed (window : View) (target : Val) (limit : Nat) (m : Machine F S) :
    (∀ found t, resolve window target limit m = .ok found t → m.Undisturbed t) ∧
      ∀ e t, resolve window target limit m = .error e t → e.Own ∧ m.Undisturbed t := by
  have h : SameEnd (Parted (.self m window.base)) _ (resolve window target limit m)
      (resolve window target limit m) :=
    resolve_paired (o := .self m window.base) target limit m m (.self m window.base window.top)
  constructor
  · intro found t hfound
    rw [hfound] at h
    obtain ⟨-, k, -, -, hwindows⟩ := h
    exact hwindows.left
  · intro e t hnone
    rw [hnone] at h
    exact ⟨h.2.1, h.2.2.left⟩

/-- A call either finds no function, or is counted. -/
theorem invoke_counts (r : Runner F S) (window : View) (target : Val) (m : Machine F S) :
    (∃ e t, e.Own ∧ resolve window target m.world.config.maxMetaChain m = .error e t ∧
      invoke r window target m = .error e t) ∨
    ∃ f args, m.Counts (r.run f args) (invoke r window target m) := by
  obtain ⟨hfound, hnone⟩ := resolve_undisturbed window target m.world.config.maxMetaChain m
  have hconfig : (config : M F S Config) m = .ok m.world.config m := rfl
  cases hresolve : resolve window target m.world.config.maxMetaChain m with
  | error e t =>
    exact .inl ⟨e, t, (hnone e t hresolve).1, rfl,
      (bind_of_ok hconfig).trans (bind_of_error hresolve)⟩
  | ok found t =>
    obtain ⟨args, u, x, hshape, hcounted⟩ := Regime.invoke_resolved hresolve
    obtain ⟨k, s, y, hok⟩ := shape_ok (t.heap.function found.1).arity found.2 t
    cases hok.symm.trans hshape
    refine .inr ⟨found.1, ⟨found.2.base, k⟩, ?_⟩
    rw [hcounted]
    exact ((hfound found t hresolve).trans (undisturbed_restack t s x)).counts _

/-- A re-entry is counted. -/
theorem reenter_counts (r : Runner F S) (link : Link) (inner : List Link) (values : List Val)
    (window : View) (m : Machine F S) :
    m.Counts (r.rerun link inner values window) (reenter r link inner values window m) := by
  obtain ⟨trace, htrace⟩ := record_ok m fun _ =>
    .replay (m.heap.function link.function).name link.index inner.length
  have hrun : reenter r link inner values window m =
      (do enter; ensuring (r.rerun link inner values window) leave) { m with trace := trace } :=
    bind_of_ok htrace
  rw [hrun]
  exact (Still.ofTrace m trace).toUndisturbed.counts _

/-! ### Functions raise none of their own -/

omit [HostBody F S] in
/-- Requests that are stopped, as if out of fuel, where they raise a stack overflow. -/
def stopped (P : Perform F S) : Perform F S := fun request m =>
  match P request m with
  | .error (.fault (.stackOverflow _)) t => .error .exhausted t
  | r => r

omit [HostBody F S] in
theorem stopped_outlasts (P : Perform F S) (request : Request) :
    Outlasts .fuel (stopped P request) (P request) := by
  intro m
  unfold stopped
  split
  · exact .inl ⟨_, rfl⟩
  · exact .inr rfl

/-- The regime of runs without a stack overflow. -/
def Regime.shallow : Regime (Watch.free : Watch F S) :=
  { Regime.free with
    raises := fun f => (Unwind.fault f).Own
    own := id }

theorem stopped_serves [QuietHost F S] (n : Nat) (acts : List Activity) :
    (Regime.shallow : Regime (Watch.free : Watch F S)).Serves acts (stopped (perform n))
      (stopped (perform n)) := by
  intro request m _
  have h := Regime.free.perform_agrees (fun _ _ _ _ => trivial) n acts request m trivial
  unfold stopped
  cases hr : perform n request m with
  | ok u t =>
    rw [hr] at h
    exact ⟨rfl, trivial, h.2.2⟩
  | error e t =>
    rw [hr] at h
    cases e with
    | suspend s => exact ⟨fun _ => rfl, ⟨trivial, trivial⟩, h.2.2⟩
    | fault f =>
      cases f with
      | stackOverflow depth => rfl
      | _ => exact ⟨rfl, by trivial, trivial, h.2.2.2⟩
    | overflow => rfl
    | exhausted => rfl

omit [HostBody F S] in
/-- What raises no stack overflow by itself raises only those of its requests: it does not end if
these are stopped. -/
theorem exhausted_of_overflow {base : Nat} {acts permitted : List Activity} {x x' y : M F S α}
    {m t : Machine F S} {depth : Nat}
    (hx : Agrees ((Regime.shallow : Regime (Watch.free : Watch F S)).bounds acts permitted base) x x')
    (hxy : Outlasts .fuel x y) (hy : y m = .error (.fault (.stackOverflow depth)) t) :
    Exhausted (x m) := by
  refine (hxy m).resolve_right fun heq => ?_
  have h := hx m trivial
  rw [heq.trans hy] at h
  exact h.2.1

end Sources

section Requests

variable {P P' : Perform Empty PUnit} (hP : ∀ request, Outlasts .fuel (P request) (P' request))

include hP

theorem callMeta_outlasts (w : View) (handler : Val) (args : List Val) :
    Outlasts .fuel (callMeta P w handler args) (callMeta P' w handler args) :=
  .andThen (.after _ fun _ => hP _) _

theorem answer_outlasts (w : View) (post : Val → Val) (intent : Intent) :
    Outlasts .fuel (answer P w post intent) (answer P' w post intent) := by
  cases intent with
  | value v => exact .refl _
  | ask handler args => exact (callMeta_outlasts hP w handler args).andThen _

theorem enact_outlasts (w : View) (intent : Intent) :
    Outlasts .fuel (enact P w intent) (enact P' w intent) := by
  cases intent with
  | value v => exact .refl _
  | ask handler args => exact .after _ fun _ => hP _

theorem Dispatch.run_outlasts (w : View) (d : Dispatch) :
    Outlasts .fuel (d.run P w) (d.run P' w) := by
  cases d with
  | call target => exact hP _
  | callWith target args => exact .after _ fun _ => hP _
  | callNonresumable target name => exact callNonresumable_outlasts hP w target name
  | index object key =>
    rw [Dispatch.run, Dispatch.run, index_eq, index_eq]
    exact .andThen (.after _ fun intent => answer_outlasts hP w _ intent) _
  | newIndex object key value =>
    rw [Dispatch.run, Dispatch.run, newIndex_eq, newIndex_eq]
    exact .after _ fun intent => enact_outlasts hP w intent
  | arith op lhs rhs =>
    rw [Dispatch.run, Dispatch.run, arith_eq, arith_eq]
    exact .andThen (.after _ fun intent => answer_outlasts hP w _ intent) _
  | unary op v =>
    rw [Dispatch.run, Dispatch.run, unary_eq, unary_eq]
    exact .andThen (.after _ fun intent => answer_outlasts hP w _ intent) _
  | replay links values => exact hP _
  | resume co args => exact (resume_outlasts hP w co args).andThen _

end Requests

/-! ## All counters -/

/-- What an operation keeps to, whoever watches. -/
theorem Dispatch.run_agrees [HostBody F S] [QuietHost F S] {W : Watch F S} (G : Regime W)
    (hlimits : G.Limits) (n : Nat) (acts : List Activity) (window : View) (d : Dispatch) :
    ∃ y, Agrees (G.bounds acts acts window.base) (d.run (perform n) window) y :=
  G.dispatch_agrees (fun acts => G.perform_agrees hlimits n acts) window d

/-- A regular ending of a step that keeps to the bounds of a regime. -/
theorem Agrees.evolves {W : Watch F S} {G : Regime W} {acts permitted : List Activity} {base : Nat}
    {x y : M F S α} (h : Agrees (G.bounds acts permitted base) x y) {m u : Machine F S}
    (hm : G.inv acts m) (hu : EndsIn (x m) u) : m.Evolves base u := by
  have h := h m hm
  cases hx : x m with
  | ok a t =>
    rw [hx] at h hu
    obtain rfl := hu
    exact h.2.2
  | error e t =>
    rw [hx] at h hu
    obtain ⟨he, rfl⟩ := hu
    cases e with
    | suspend s => exact h.2.2
    | fault f => exact h.2.2.2
    | overflow => exact he.elim
    | exhausted => exact he.elim

/-- **Context accounting.** However an operation ends, depth, boundary count and running coroutine
are as they were. In the beginning nothing is in progress; along a run, wherever a request or a
function begins or ends, the counters fit what is in progress, as no alarm is ever raised; so the
depth is within its limit, and where a call is left there is one to leave. A call of a function and
a re-entry raise a stack overflow exactly at the limit, with the depth; functions and operations
raise none but those of their requests; and each carries the limit. -/
theorem context_accounting (n limit : Nat) :
    (∀ window (d : Dispatch) (m u : Machine Empty PUnit), EndsIn (d.run (perform n) window m) u →
      u.thread.depth = m.thread.depth ∧ u.thread.boundaries = m.thread.boundaries ∧
        u.thread.current = m.thread.current) ∧
    (∀ (heap : Heap Empty) config trace (host : PUnit),
      Accounted config.maxCallDepth [] (Machine.start heap config trace host)) ∧
    (∀ acts request (m : Machine Empty PUnit), Accounted limit acts m →
      (∀ alarm, (Watch.counters limit alarm).everywhere n acts request m = perform n request m) ∧
      ∀ u, EndsIn (perform n request m) u → Accounted limit acts u) ∧
    (∀ acts f (m : Machine Empty PUnit), Accounted limit (.call f :: acts) m →
      (leave m).thread.depth + 1 = m.thread.depth) ∧
    (∀ acts (m : Machine Empty PUnit), Accounted limit (.boundary :: acts) m →
      (leaveBoundary m).thread.boundaries + 1 = m.thread.boundaries) ∧
    (∀ r window target (m : Machine Empty PUnit),
      (∃ e t, e.Own ∧ resolve window target m.world.config.maxMetaChain m = .error e t ∧
        invoke r window target m = .error e t) ∨
      ∃ f args, m.Counts (r.run f args) (invoke r window target m)) ∧
    (∀ r link inner values window (m : Machine Empty PUnit),
      m.Counts (r.rerun link inner values window) (reenter r link inner values window m)) ∧
    (∀ fuel f args (m t : Machine Empty PUnit) depth,
      runFunction fuel (perform n) f args m = .error (.fault (.stackOverflow depth)) t →
      Exhausted (runFunction fuel (stopped (perform n)) f args m)) ∧
    (∀ fuel link inner values window (m t : Machine Empty PUnit) depth,
      reenterFunction fuel (perform n) link inner values window m =
        .error (.fault (.stackOverflow depth)) t →
      Exhausted (reenterFunction fuel (stopped (perform n)) link inner values window m)) ∧
    (∀ window (d : Dispatch) (m t : Machine Empty PUnit) depth,
      d.run (perform n) window m = .error (.fault (.stackOverflow depth)) t →
      Exhausted (d.run (stopped (perform n)) window m)) ∧
    ∀ acts window (d : Dispatch) (m t : Machine Empty PUnit) depth, Accounted limit acts m →
      d.run (perform n) window m = .error (.fault (.stackOverflow depth)) t → depth = limit := by
  let G : Regime (Watch.free : Watch Empty PUnit) := .shallow
  have hstopped : ∀ acts, G.Serves acts (stopped (perform n)) (stopped (perform n)) :=
    stopped_serves n
  have houtlasts := stopped_outlasts (perform n : Perform Empty PUnit)
  refine ⟨fun window d m u hu => ?_, accounted_start, fun acts request m hm => ?_,
    fun acts f m hm => hm.leave_depth, fun acts m hm => hm.leaveBoundary_boundaries,
    invoke_counts, reenter_counts, fun fuel f args m t depth h => ?_,
    fun fuel link inner values window m t depth h => ?_, fun window d m t depth h => ?_,
    fun acts window d m t depth hm h => ?_⟩
  · obtain ⟨y, hy⟩ := d.run_agrees (Regime.free (F := Empty) (S := PUnit))
      (fun _ _ _ _ => trivial) n [] window
    have hevolves := hy.evolves trivial hu
    exact ⟨hevolves.depth, hevolves.boundaries, hevolves.current⟩
  · have h := fun alarm => (Regime.counters limit alarm).everywhere_agrees
      (Regime.counters_limits limit alarm) n acts request m hm
    exact ⟨fun alarm => (h alarm).eq fun _ => trivial,
      fun u hu => Regime.inv_of_meets _ (h (pure ())) hu⟩
  · have hx : Agrees (G.bounds [.call f] [] args.base) (runFunction fuel (stopped (perform n)) f args)
        _ := fun m _ => G.function_meets hstopped fuel trivial
    exact exhausted_of_overflow hx (runFunction_outlasts houtlasts (Nat.le_refl fuel) f args) h
  · have hx : Agrees (G.bounds [.call link.function] [] window.base)
        (reenterFunction fuel (stopped (perform n)) link inner values window) _ :=
      fun m _ => G.reentry_meets hstopped fuel link inner values trivial
    exact exhausted_of_overflow hx
      (reenterFunction_outlasts houtlasts (Nat.le_refl fuel) link inner values window) h
  · obtain ⟨y, hy⟩ : ∃ y, Agrees (G.bounds [] [] window.base)
      (d.run (stopped (perform n)) window) y := G.dispatch_agrees hstopped window d
    exact exhausted_of_overflow hy (Dispatch.run_outlasts houtlasts window d) h
  · obtain ⟨y, hy⟩ := d.run_agrees (Regime.counters (F := Empty) (S := PUnit) limit (pure ()))
      (Regime.counters_limits limit _) n acts window
    have hfault := hy m hm
    rw [h] at hfault
    exact hfault.2.1 depth rfl

end ScriptCore
