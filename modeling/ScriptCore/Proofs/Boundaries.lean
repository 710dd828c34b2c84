import ScriptCore.Proofs.Counters
import ScriptCore.Proofs.Transparency

/-!
# Calls that cannot be suspended

Where a non-resumable call is in progress since the innermost resume (`BelowBoundary`), a yield fails
and suspends nothing; elsewhere inside a coroutine it suspends. What is in progress decides it, since
the boundary count follows it (`Accounted.yielding`). So no suspension ever comes up to a
non-resumable call (`perform_unsuspended`), a coroutine that is resumed below one can yield, and
behind one everything is as before. `boundaries_hold` puts these together.
-/

namespace ScriptCore

open Machine

variable {F S α : Type}

/-! ## Where a yield suspends -/

/-- A coroutine is being resumed. -/
def InCoroutine (acts : List Activity) : Prop := ∃ co, .resume co ∈ acts

/-- A non-resumable call is in progress in the coroutine that was resumed last, or on the main
thread if there is none. -/
def BelowBoundary (acts : List Activity) : Prop :=
  ∃ inner outer, acts = inner ++ .boundary :: outer ∧ ∀ co, .resume co ∉ inner

theorem mem_resumes {co : CoId} {acts : List Activity} :
    co ∈ resumes acts ↔ Activity.resume co ∈ acts := by
  rw [resumes, List.mem_filterMap]
  constructor
  · rintro ⟨a, ha, hco⟩
    cases a with
    | resume co' =>
      cases hco
      exact ha
    | call | boundary => cases hco
  · exact fun h => ⟨_, h, rfl⟩

theorem inCoroutine_iff (acts : List Activity) :
    InCoroutine acts ↔ (resumes acts).head?.isSome := by
  rw [List.isSome_head?, InCoroutine, exists_congr fun co => mem_resumes.symm]
  constructor
  · rintro ⟨co, hco⟩
    exact List.ne_nil_of_mem hco
  · exact List.exists_mem_of_ne_nil _

theorem belowBoundary_iff (acts : List Activity) : BelowBoundary acts ↔ recentBoundaries acts ≠ 0 := by
  induction acts with
  | nil =>
    constructor
    · rintro ⟨inner, outer, h, -⟩
      cases inner <;> cases h
    · exact fun h => (h rfl).elim
  | cons a acts ih =>
    cases a with
    | boundary => exact ⟨fun _ => Nat.succ_ne_zero _, fun _ => ⟨[], acts, rfl, fun _ => List.not_mem_nil⟩⟩
    | resume co =>
      constructor
      · rintro ⟨inner, outer, h, hnone⟩
        cases inner with
        | nil => cases h
        | cons b inner =>
          obtain ⟨rfl, -⟩ := List.cons.inj h
          exact (hnone co List.mem_cons_self).elim
      · exact fun h => (h rfl).elim
    | call f =>
      rw [recentBoundaries, ← ih]
      constructor
      · rintro ⟨inner, outer, h, hnone⟩
        cases inner with
        | nil => cases h
        | cons b inner =>
          obtain ⟨-, h⟩ := List.cons.inj h
          exact ⟨inner, outer, h, fun co hco => hnone co (List.mem_cons_of_mem _ hco)⟩
      · rintro ⟨inner, outer, rfl, hnone⟩
        refine ⟨.call f :: inner, outer, rfl, fun co hco => ?_⟩
        obtain hco | hco := List.mem_cons.1 hco
        · cases hco
        · exact hnone co hco

/-- A yield does what fits the activities in progress, and so does the question whether one could. -/
structure Yields (acts : List Activity) (m : Machine F S) : Prop where
  outside : ¬ InCoroutine acts → ∀ values, (yieldValues values : M F S Unit) m =
    .error (.fault .yieldOutsideCoroutine) m
  below : InCoroutine acts → BelowBoundary acts → ∀ values, (yieldValues values : M F S Unit) m =
    .error (.fault (.yieldAcrossBoundary "native call")) m
  suspends : InCoroutine acts → ¬ BelowBoundary acts → ∀ values, (yieldValues values : M F S Unit) m =
    .error (.suspend ⟨values, []⟩) m
  asked : ∃ b, (isYieldable : M F S Bool) m = .ok b m ∧
    (b = true ↔ InCoroutine acts ∧ ¬ BelowBoundary acts)

/-- The counters decide where a yield suspends. -/
theorem Accounted.yielding {limit : Nat} {acts : List Activity} {m : Machine F S}
    (h : Accounted limit acts m) : Yields acts m := by
  have hcurrent : m.thread.current.isSome ↔ InCoroutine acts := by
    rw [h.current, inCoroutine_iff]
  have hboundaries : m.thread.boundaries ≠ 0 ↔ BelowBoundary acts := by
    rw [h.boundaries, belowBoundary_iff]
  have hsome : InCoroutine acts → ¬ m.thread.current.isNone := fun hin hnone => by
    rw [Option.isNone_iff_eq_none.1 hnone] at hcurrent
    exact nomatch hcurrent.2 hin
  refine ⟨fun hin values => ?_, fun hin hbelow values => ?_, fun hin hbelow values => ?_, ?_⟩
  · rw [yieldValues_eq, if_pos]
    simpa using mt hcurrent.1 hin
  · rw [yieldValues_eq, if_neg (hsome hin), if_pos (hboundaries.2 hbelow)]
  · rw [yieldValues_eq, if_neg (hsome hin), if_neg (mt hboundaries.1 hbelow)]
  · refine ⟨m.thread.current.isSome && m.thread.boundaries == 0, rfl, ?_⟩
    rw [Bool.and_eq_true, beq_iff_eq, hcurrent, ← hboundaries, Decidable.not_not]

/-- A call in progress changes nothing for yields. -/
theorem suspendable_call (f : FnId) (acts : List Activity) :
    (InCoroutine (.call f :: acts) ∧ ¬ BelowBoundary (.call f :: acts)) ↔
      (InCoroutine acts ∧ ¬ BelowBoundary acts) := by
  rw [inCoroutine_iff, inCoroutine_iff, belowBoundary_iff, belowBoundary_iff]
  exact Iff.rfl

/-- Where a yield suspends. -/
theorem Accounted.suspendable {limit : Nat} {acts : List Activity} {m : Machine F S}
    (h : Accounted limit acts m) (hcurrent : m.thread.current.isSome)
    (hboundaries : m.thread.boundaries = 0) : InCoroutine acts ∧ ¬ BelowBoundary acts := by
  rw [inCoroutine_iff, belowBoundary_iff, ← h.current, ← h.boundaries]
  exact ⟨hcurrent, not_not_intro hboundaries⟩

/-! ## Along a run -/

/-- Watches what yields would do. -/
def Watch.yielding (alarm : M F S Unit) : Watch F S where
  within := Yields
  yields _ := True
  alarm := alarm

/-- **Yields follow what is in progress.** A suspension comes from inside a coroutine, and passes no
non-resumable call. -/
def Regime.yielding (limit : Nat) (alarm : M F S Unit) : Regime (Watch.yielding alarm) where
  inv := Accounted limit
  lost acts _ _ := InCoroutine acts ∧ ¬ BelowBoundary acts
  permits _ _ := True
  within h := h.yielding
  quiet := (Regime.counters limit alarm).quiet
  lost_quiet h _ := h
  host := (Regime.counters limit alarm).host
  enter := (Regime.counters limit alarm).enter
  leave := (Regime.counters limit alarm).leave
  lost_leave h := h
  enterBoundary := (Regime.counters limit alarm).enterBoundary
  leaveBoundary := (Regime.counters limit alarm).leaveBoundary
  yield _ h := h.suspendable
  yieldNative _ h hcurrent hboundaries := (suspendable_call ..).1 (h.suspendable hcurrent hboundaries)
  permits_yield _ := trivial
  link h _ := (suspendable_call ..).1 h
  permits_boundary := trivial
  permits_link _ := trivial
  create := (Regime.counters limit alarm).create
  resume := (Regime.counters limit alarm).resume
  permits_resume := trivial
  returned := (Regime.counters limit alarm).returned
  yielded h h' _ := (Regime.counters limit alarm).yielded h h' trivial

theorem Regime.yielding_limits (limit : Nat) (alarm : M F S Unit) :
    (Regime.yielding limit alarm).Limits := fun _ _ _ _ => trivial

section Engine

variable [HostBody F S] [QuietHost F S] {limit n : Nat} {acts : List Activity} {m : Machine F S}

/-- The regime, where nothing is done on an alarm. -/
abbrev Regime.yields (limit : Nat) : Regime (Watch.yielding (pure ()) : Watch F S) :=
  .yielding limit (pure ())

theorem perform_yields (acts : List Activity) :
    (Regime.yields limit : Regime (Watch.yielding (pure ()) : Watch F S)).Serves acts (perform n)
      ((Watch.yielding (pure ())).perform n acts) :=
  (Regime.yields limit).perform_agrees (Regime.yielding_limits limit _) n acts

/-- A suspension of a request comes from where it may. -/
theorem suspendable_of_suspended {request : Request} {s : Suspension} {t : Machine F S}
    (hm : Accounted limit acts m) (h : perform n request m = .error (.suspend s) t) :
    InCoroutine acts ∧ ¬ BelowBoundary acts := by
  have hserves : (Regime.yields limit : Regime (Watch.yielding (pure ()) : Watch F S)).Serves acts
      (perform n) _ := perform_yields acts
  have hr := hserves request m hm
  rw [h] at hr
  exact hr.2.1.2

/-- **No suspension comes up to a non-resumable call.** -/
theorem perform_unsuspended (hm : Accounted limit acts m) (hbelow : BelowBoundary acts)
    (request : Request) (s : Suspension) (t : Machine F S) :
    perform n request m ≠ .error (.suspend s) t :=
  fun h => (suspendable_of_suspended hm h).2 hbelow

end Engine

/-! ## What never suspends -/

/-- A step that never ends with a suspension. -/
def Unsuspended (x : M F S α) : Prop := ∀ m s t, x m ≠ .error (.suspend s) t

namespace Unsuspended

variable {β : Type}

theorem bind {x : M F S α} {f : α → M F S β} (hx : Unsuspended x) (hf : ∀ a, Unsuspended (f a)) :
    Unsuspended (x >>= f) := by
  intro m s t h
  cases hr : x m with
  | ok a u => exact hf a u s t ((bind_of_ok hr).symm.trans h)
  | error e u =>
    cases (bind_of_error hr).symm.trans h
    exact hx m s t hr

theorem pure (a : α) : Unsuspended (pure a : M F S α) := fun _ _ _ => nofun

theorem load (window : View) (values : List Val) :
    Unsuspended (load window values : M F S View) := by
  intro m s t h
  obtain ⟨x, hx⟩ := onStack_ok (window.load · values) m
  cases hx.symm.trans h

variable [HostFunction F]

/-- What runs in step with itself raises no more than faults of its own. -/
theorem still {x : M F S α} {V : α → α → Prop} (h : ∀ m, InStep (Abreast m) V x x) :
    Unsuspended x :=
  fun m _ t hx => ((still_of_inStep (h m)).2 _ t hx).1

omit [HostFunction F] in
/-- **Non-resumable calls.** A suspension of what is called becomes a fault. -/
theorem callNonresumable (P : Perform F S) (window : View) (target : Val) (name : String) :
    Unsuspended (callNonresumable P window target name) := by
  intro m s t
  rw [callNonresumable_eq]
  cases P (.call window target) (bounded m) with
  | ok a u => exact nofun
  | error e u => cases e <;> exact nofun

theorem display (P : Perform F S) (scratch : View) (v : Val) :
    Unsuspended (Base.display P scratch v) := by
  refine (still fun m => metamethod_inStep (Abreast.closed m) v _).bind fun h? => ?_
  cases h? with
  | some handler =>
    refine (load scratch [v]).bind fun w => (callNonresumable P w handler _).bind fun _ => ?_
    refine (still fun m => result_inStep (Abreast.hears m) 0).bind fun u => ?_
    split
    · exact pure _
    · exact fun _ _ _ => nofun
  | none => exact still (V := Eq) fun m => named_inStep (Abreast.closed m) v

/-- The texts of several values. -/
theorem line (P : Perform F S) (scratch : View) (values : List Val) :
    Unsuspended (Base.line P scratch values) := by
  induction values with
  | nil => exact pure []
  | cons v values ih => exact (display P scratch v).bind fun _ => ih.bind fun _ => pure _

/-- The message handler of a protected call. -/
theorem handled (P : Perform F S) (window : View) (handler v : Val) :
    Unsuspended (Base.handled P window handler v) := by
  refine (load window [v]).bind fun w m s t => ?_
  rw [attempt_bind]
  cases hr : Machine.callNonresumable P w handler "xpcall handler" m with
  | ok a u => exact still (fun m => result_inStep (Abreast.hears m) 0) u s t
  | error e u =>
    cases e with
    | suspend s' => exact (callNonresumable P w handler _ m s' u hr).elim
    | fault f =>
      dsimp only
      split <;> exact nofun
    | overflow | exhausted => exact nofun

theorem tostring (P : Perform F S) (args : View) : Unsuspended (Base.tostring P args) :=
  (still fun m => Args.checkAny_inStep (Abreast.closed m) (Abreast.shares m args) 1 _).bind fun v =>
    (display P _ v).bind fun _ => still (V := Eq) fun m => give_inStep (Abreast.closed m) _

theorem print (P : Perform F S) (args : View) : Unsuspended (Base.print P args) :=
  (still fun m => valuesFrom_inStep (Abreast.closed m) (Abreast.shares m args) 0).bind fun values =>
    (line P _ values).bind fun _ => still (V := Eq) fun m =>
      (emit_inStep (Abreast.closed m) _).seq fun _ => giveAll_inStep (Abreast.closed m) _

end Unsuspended

/-! ## Behind a call and below it -/

section Engine

variable [HostBody F S] [QuietHost F S] {limit n : Nat} {acts : List Activity} {m : Machine F S}

/-- Behind a non-resumable call, however it ends, the counters fit what was in progress before. -/
theorem Accounted.behind (hm : Accounted limit acts m) {window : View} {target : Val}
    {name : String} {u : Machine F S}
    (hu : EndsIn (callNonresumable (perform n) window target name m) u) : Accounted limit acts u :=
  have hagrees : Agrees ((Regime.yields limit).bounds acts acts window.base)
      (callNonresumable (perform n) window target name) _ :=
    (Regime.yields limit).callNonresumable_agrees (perform_yields _) window target name
  (Regime.yields limit).inv_of_meets (hagrees m hm) hu

/-- What is resumed below a non-resumable call is not below it. -/
theorem suspendable_resumed {inner : List Activity} (co : CoId) (acts : List Activity)
    (hinner : .boundary ∉ inner) : InCoroutine (inner ++ .resume co :: acts) ∧
      ¬ BelowBoundary (inner ++ .resume co :: acts) := by
  refine ⟨⟨co, by simp⟩, ?_⟩
  rw [belowBoundary_iff, Decidable.not_not]
  induction inner with
  | nil => rfl
  | cons a inner ih =>
    have ih := ih fun h => hinner (List.mem_cons_of_mem _ h)
    cases a with
    | boundary => exact (hinner List.mem_cons_self).elim
    | resume => rfl
    | call => exact ih

/-- **Yields to the own resumer.** A coroutine that is resumed, wherever that is, runs where yields
suspend; what it yields is handed to its resumer. -/
theorem resume_yields (hm : Accounted limit acts m) {co : CoId}
    (hco : (m.heap.coroutine co).status = .suspended) (window : View) (args : List Val) :
    ∃ x, Accounted limit (.resume co :: acts) { m.turnedTo co with trace := x } ∧
      ∀ s t, segment (perform n) window args (m.heap.coroutine co)
          { m.turnedTo co with trace := x } = .error (.suspend s) t →
        ∃ u, resume (perform n) window co args m = .ok .yielded u ∧
          u.thread.results = .ofValues s.values ∧ Accounted limit acts u := by
  let G : Regime (Watch.yielding (pure ()) : Watch F S) := .yields limit
  obtain ⟨x, hx⟩ := resume_eq args hco
  have hturned := G.quiet (G.resume hm hco) (Still.ofTrace _ x).toUndisturbed
  refine ⟨x, hturned, fun s t hs => ?_⟩
  have ht : Accounted limit (.resume co :: acts) t := by
    have h := G.segment_agrees (perform_yields (n := n) _) window args (m.heap.coroutine co) _ hturned
    rw [hs] at h
    exact h.2.1.1
  obtain ⟨y, hy⟩ := handBack_suspend m.thread.current m.thread.boundaries co t s
  let back : Machine F S := { t.turnedBack m.thread.current m.thread.boundaries co
    (.suspended s.chain) with trace := y }
  have hback : Accounted limit acts back :=
    (hm.turnedBack ht (.suspended s.chain)).congr rfl rfl rfl rfl
  refine ⟨back.withResults s.values, ?_, rfl, hback.congr rfl rfl rfl rfl⟩
  rw [hx, attempt_bind, hs]
  exact hy.trans (bind_of_ok (giveAll_eq s.values back))

/-! ## Calls of the library -/

omit [QuietHost F S]

/-- A call of a library function shapes its arguments, and is counted. -/
theorem builtin_call {f : FnId} {b : Builtin} (hf : m.heap.function f = .builtin b)
    (window : View) : ∃ args t, shape b.arity window m = .ok args t ∧ m.Undisturbed t ∧
      ∃ x, ∀ fuel (P : Perform F S), invoke (runner fuel P) window (.fn f) m =
        if m.world.config.maxCallDepth ≤ m.thread.depth then
          .error (.fault (.stackOverflow m.thread.depth)) { t with trace := x }
        else ensuring (runBuiltin P b args) leave (entered { t with trace := x }) := by
  have hresolve : resolve window (.fn f) m.world.config.maxMetaChain m = .ok (f, window) m := by
    rw [resolve_fn]
    rfl
  obtain ⟨args, t, x, hshape, hinvoke⟩ := Regime.invoke_resolved hresolve
  rw [hf] at hshape
  obtain ⟨k, s, y, hok⟩ := shape_ok b.arity window m
  cases hok.symm.trans hshape
  refine ⟨_, _, hshape, undisturbed_restack m s y, x, fun fuel P => ?_⟩
  have hrun := runFunction_builtin (m := entered { m.restack s y with trace := x }) hf fuel P
    ⟨window.base, k⟩
  exact ((hinvoke _).trans (Regime.counted_eq _ _)).trans
    (congrArg (@ite _ (m.world.config.maxCallDepth ≤ m.thread.depth) _ _) (ensuring_congr hrun))

omit [HostBody F S] in
/-- A yield in a call that is counted ends as without the call. -/
theorem ensuring_yieldValues (values : List Val) (m : Machine F S) :
    ensuring (yieldValues values : M F S Unit) leave (entered m) = yieldValues values m := by
  unfold ensuring
  rw [yieldValues_eq, yieldValues_eq]
  by_cases hcurrent : m.thread.current.isNone
  · rw [if_pos hcurrent, if_pos (show m.entered.thread.current.isNone from hcurrent)]
    rfl
  · rw [if_neg hcurrent, if_neg (show ¬ m.entered.thread.current.isNone from hcurrent)]
    by_cases hboundaries : m.thread.boundaries ≠ 0
    · rw [if_pos hboundaries, if_pos (show m.entered.thread.boundaries ≠ 0 from hboundaries)]
      rfl
    · rw [if_neg hboundaries, if_neg (show ¬ m.entered.thread.boundaries ≠ 0 from hboundaries)]
      rfl

/-- **Calls of the yield function.** Its arguments are what a suspension yields. -/
theorem yield_call {y : FnId} (hy : m.heap.function y = .builtin .yield) (window : View) :
    ∃ x, perform (n + 1) (.call window (.fn y)) m =
      if m.world.config.maxCallDepth ≤ m.thread.depth then
        .error (.fault (.stackOverflow m.thread.depth)) { m with trace := x }
      else (yieldValues (window.valuesFrom m.thread.stack m.heap.cells 0) : M F S Unit)
        { m with trace := x } := by
  obtain ⟨args, t, hshape, -, x, hinvoke⟩ := builtin_call hy window
  cases hshape
  refine ⟨x, ?_⟩
  have hinvoke := hinvoke n (perform n)
  by_cases hmax : m.world.config.maxCallDepth ≤ m.thread.depth
  · rw [if_pos hmax] at hinvoke ⊢
    exact bind_of_error hinvoke
  · rw [if_neg hmax] at hinvoke ⊢
    obtain ⟨e, he⟩ : ∃ e, (yieldValues (window.valuesFrom m.thread.stack m.heap.cells 0) :
        M F S Unit) { m with trace := x } = .error e { m with trace := x } := by
      rw [yieldValues_eq]
      split
      · exact ⟨_, rfl⟩
      · split <;> exact ⟨_, rfl⟩
    have hrun := hinvoke.trans ((ensuring_yieldValues _ { m with trace := x }).trans he)
    exact (bind_of_error hrun).trans he.symm

/-- **Calls of the question whether a yield suspends.** -/
theorem isyieldable_call {i : FnId} (hi : m.heap.function i = .builtin .isyieldable)
    (window : View) : ∃ t, perform (n + 2) (.call window (.fn i)) m =
      if m.world.config.maxCallDepth ≤ m.thread.depth then
        .error (.fault (.stackOverflow m.thread.depth)) t
      else .ok () (t.withResults [.bool (m.thread.current.isSome && m.thread.boundaries == 0)]) := by
  obtain ⟨args, t, -, ht, x, hinvoke⟩ := builtin_call hi window
  refine ⟨{ t with trace := x }, ?_⟩
  have hinvoke := hinvoke (n + 1) (perform (n + 1))
  by_cases hmax : m.world.config.maxCallDepth ≤ m.thread.depth
  · rw [if_pos hmax] at hinvoke ⊢
    exact bind_of_error hinvoke
  · rw [if_neg hmax] at hinvoke ⊢
    rw [← ht.current, ← ht.boundaries]
    exact (bind_of_ok hinvoke).trans (drain_values _ _ n rfl)

/-- **The question is answered rightly.** A call of the yield function suspends exactly where one of
`isyieldable` gives true. -/
theorem yield_iff_isyieldable {y i : FnId} (hy : m.heap.function y = .builtin .yield)
    (hi : m.heap.function i = .builtin .isyieldable) (window : View) :
    (∃ s t, perform (n + 2) (.call window (.fn y)) m = .error (.suspend s) t) ↔
      ∃ t, perform (n + 2) (.call window (.fn i)) m = .ok () t ∧
        t.thread.results = .ofValues [.bool true] := by
  obtain ⟨x, hyield⟩ := yield_call (n := n + 1) hy window
  obtain ⟨u, hask⟩ := isyieldable_call (n := n) hi window
  rw [hyield, hask, yieldValues_eq]
  by_cases hmax : m.world.config.maxCallDepth ≤ m.thread.depth
  · rw [if_pos hmax, if_pos hmax]
    exact ⟨nofun, nofun⟩
  · rw [if_neg hmax, if_neg hmax]
    cases hcurrent : m.thread.current with
    | none => exact ⟨nofun, fun ⟨t, ht, htrue⟩ => by cases ht; cases htrue⟩
    | some co =>
      rw [if_neg nofun]
      by_cases hboundaries : m.thread.boundaries = 0
      · rw [if_neg (not_not_intro hboundaries), hboundaries]
        exact ⟨fun _ => ⟨_, rfl, rfl⟩, fun _ => ⟨_, _, rfl⟩⟩
      · rw [if_pos hboundaries, Bool.and_eq_false_iff.2 (.inr (beq_false_of_ne hboundaries))]
        exact ⟨nofun, fun ⟨t, ht, htrue⟩ => by cases ht; cases htrue⟩

/-- **Yields from a script.** Inside a coroutine a call of the yield function suspends with its
arguments, or fails and changes nothing if a non-resumable call is in progress. -/
theorem Accounted.yield_call (hm : Accounted limit acts m) (hin : InCoroutine acts)
    (hdepth : m.thread.depth < limit) {y : FnId} (hy : m.heap.function y = .builtin .yield)
    (window : View) : ∃ x,
      (BelowBoundary acts → perform (n + 1) (.call window (.fn y)) m =
        .error (.fault (.yieldAcrossBoundary "native call")) { m with trace := x }) ∧
      (¬ BelowBoundary acts → perform (n + 1) (.call window (.fn y)) m =
        .error (.suspend ⟨window.valuesFrom m.thread.stack m.heap.cells 0, []⟩)
          { m with trace := x }) := by
  obtain ⟨x, hyield⟩ := ScriptCore.yield_call (n := n) hy window
  rw [if_neg (Nat.not_le.2 (hm.config ▸ hdepth))] at hyield
  have hkept : Accounted limit acts { m with trace := x } := hm.congr rfl rfl rfl rfl
  have hyields : Yields acts { m with trace := x } := hkept.yielding
  exact ⟨x, fun hbelow => hyield.trans (hyields.below hin hbelow _),
    fun hbelow => hyield.trans (hyields.suspends hin hbelow _)⟩

end Engine

/-! ## All of it -/

/-- **No suspension crosses a non-resumable call.** A non-resumable call never suspends, nor does
what is made of one. Along every run, wherever a request or a function begins or ends, what a yield
does fits what is in progress, as no alarm is ever raised: with a non-resumable call in progress
since the innermost resume it fails and nothing is suspended; else, inside a coroutine, it
suspends. So a coroutine that is resumed below such a call yields to its resumer, behind the call
yields do what they did before it, and a yield suspends exactly where `isyieldable` gives true. -/
theorem boundaries_hold (n limit : Nat) :
    (∀ (P : Perform Empty PUnit) window target name,
      Unsuspended (callNonresumable P window target name)) ∧
    (∀ (P : Perform Empty PUnit) window v, Unsuspended (Base.display P window v) ∧
      Unsuspended (Base.tostring P window) ∧ Unsuspended (Base.print P window) ∧
      ∀ handler, Unsuspended (Base.handled P window handler v)) ∧
    (∀ (heap : Heap Empty) config trace (host : PUnit),
      Accounted config.maxCallDepth [] (Machine.start heap config trace host)) ∧
    (∀ acts request (m : Machine Empty PUnit), Accounted limit acts m →
      (∀ alarm, (Watch.yielding alarm).everywhere n acts request m = perform n request m) ∧
      ∀ u, EndsIn (perform n request m) u → Accounted limit acts u) ∧
    (∀ acts (m : Machine Empty PUnit), Accounted limit acts m → Yields acts m ∧
      Accounted limit (.boundary :: acts) (bounded m)) ∧
    (∀ acts (m : Machine Empty PUnit), Accounted limit acts m → BelowBoundary acts →
      ∀ request s t, perform n request m ≠ .error (.suspend s) t) ∧
    (∀ acts (m : Machine Empty PUnit) y window, Accounted limit acts m → InCoroutine acts →
      m.thread.depth < limit → m.heap.function y = .builtin .yield → ∃ x,
        (BelowBoundary acts → perform (n + 1) (.call window (.fn y)) m =
          .error (.fault (.yieldAcrossBoundary "native call")) { m with trace := x }) ∧
        (¬ BelowBoundary acts → perform (n + 1) (.call window (.fn y)) m =
          .error (.suspend ⟨window.valuesFrom m.thread.stack m.heap.cells 0, []⟩)
            { m with trace := x })) ∧
    (∀ inner co acts, .boundary ∉ inner → InCoroutine (inner ++ .resume co :: acts) ∧
      ¬ BelowBoundary (inner ++ .resume co :: acts)) ∧
    (∀ acts (m : Machine Empty PUnit) co window args, Accounted limit acts m →
      (m.heap.coroutine co).status = .suspended →
      ∃ x, Accounted limit (.resume co :: acts) { m.turnedTo co with trace := x } ∧
        ∀ s t, segment (perform n) window args (m.heap.coroutine co)
            { m.turnedTo co with trace := x } = .error (.suspend s) t →
          ∃ u, resume (perform n) window co args m = .ok .yielded u ∧
            u.thread.results = .ofValues s.values ∧ Accounted limit acts u) ∧
    (∀ acts (m u : Machine Empty PUnit) window target name, Accounted limit acts m →
      EndsIn (callNonresumable (perform n) window target name m) u → Accounted limit acts u) ∧
    ∀ (m : Machine Empty PUnit) y i window, m.heap.function y = .builtin .yield →
      m.heap.function i = .builtin .isyieldable →
      ((∃ s t, perform (n + 2) (.call window (.fn y)) m = .error (.suspend s) t) ↔
        ∃ t, perform (n + 2) (.call window (.fn i)) m = .ok () t ∧
          t.thread.results = .ofValues [.bool true]) := by
  refine ⟨Unsuspended.callNonresumable, fun P window v => ⟨.display P window v, .tostring P window,
    .print P window, fun handler => .handled P window handler v⟩, accounted_start,
    fun acts request m hm => ?_, fun acts m hm => ⟨hm.yielding, ?_⟩,
    fun acts m hm hbelow => perform_unsuspended hm hbelow,
    fun acts m y window hm hin hdepth hy => hm.yield_call hin hdepth hy window,
    fun inner co acts hinner => suspendable_resumed co acts hinner,
    fun acts m co window args hm hco => resume_yields hm hco window args,
    fun acts m u window target name hm hu => hm.behind hu,
    fun m y i window hy hi => yield_iff_isyieldable hy hi window⟩
  · have h := fun alarm => (Regime.yielding limit alarm).everywhere_agrees
      (Regime.yielding_limits limit alarm) n acts request m hm
    exact ⟨fun alarm => (h alarm).eq fun _ => trivial,
      fun u hu => Regime.inv_of_meets _ (h (pure ())) hu⟩
  · exact (Regime.yields (F := Empty) (S := PUnit) limit).enterBoundary hm

end ScriptCore
