import ScriptCore.Proofs.Resumes
import ScriptCore.Session

/-!
# Requests keep regimes

Functions and re-entries keep a regime, so calls with their count, tail calls and replays do,
and by induction on the fuel the whole engine: `Regime.perform_agrees`.
-/

namespace ScriptCore

open Machine

variable {F S : Type} [HostBody F S] {W : Watch F S} {acts permitted : List Activity}
variable {P P' : Perform F S} {PW : List Activity → Perform F S} {f : FnId} {fuel : Nat}

omit [HostBody F S] in
theorem Machine.functionAt_bind {α : Type} (f : FnId) (k : Callable F → M F S α)
    (m : Machine F S) : (functionAt f >>= k) m = k (m.heap.function f) m := rfl

theorem Machine.runFunction_builtin {b : Builtin} {m : Machine F S}
    (hf : m.heap.function f = .builtin b) (fuel : Nat) (P : Perform F S) (args : View) :
    runFunction fuel P f args m = runBuiltin P b args m := by
  unfold runFunction
  rw [functionAt_bind, hf]

omit [HostBody F S] in
theorem Machine.resolve_fn (window : View) (f : FnId) (limit : Nat) :
    (resolve window (.fn f) limit : M F S (FnId × View)) = pure (f, window) := by
  cases limit <;> rfl

/-- With values as results there is no tail call to carry out. -/
theorem Machine.drain_values (r : Runner F S) (window : View) (fuel : Nat) {values : List Val}
    {m : Machine F S} (h : m.thread.results = .ofValues values) :
    drain r window (fuel + 1) m = .ok () m := by
  obtain ⟨heap, world, ⟨results, stack, depth, boundaries, current⟩, output, trace, journal, host⟩ := m
  obtain rfl : results = .ofValues values := h
  rfl

theorem Machine.drain_idle (r : Runner F S) {m : Machine F S} (h : m.thread.results.Settled)
    (window : View) (n : Nat) : drain r window (n + 1) m = .ok () m := by
  refine drain_values r window n (?_ : m.thread.results = .ofValues m.thread.results.values)
  cases hr : m.thread.results with
  | mk values pending =>
    rw [Results.Settled, hr] at h
    obtain rfl : pending = none := h
    rfl

namespace Regime

variable (G : Regime W)

/-! ## Functions -/

omit [HostBody F S] in
/-- A function of the host. -/
theorem host_meets {base : Nat} {x y : M F S Unit} {m : Machine F S} (hm : G.inv acts m)
    (h : x m = y m ∧ match x m with
      | .ok _ m' => m.Still { m' with host := m.host }
      | .error e m' => e.Own ∧ m.Still { m' with host := m.host }) :
    (G.bounds acts permitted base).Meets m (x m) (y m) := by
  have hstill : ∀ m' : Machine F S, m.Still { m' with host := m.host } →
      G.inv acts m' ∧ m.Evolves base m' := by
    intro m' hs
    have hinv := G.host m'.host (G.quiet hm hs.toUndisturbed)
    exact ⟨hinv, { hs.evolves with }⟩
  rw [← h.1]
  refine .self (fun a t hx => ?_) fun e t hx => ?_
  · rw [hx] at h
    exact hstill t h.2
  · rw [hx] at h
    exact ⟨h.2.1, fun f hf => ⟨G.own hf, hstill t h.2.2⟩⟩

theorem builtin_meets (hP : ∀ acts, G.Serves acts P (PW acts)) (b : Builtin) {args : View}
    {m : Machine F S} (hm : G.inv (.call f :: acts) m) :
    (G.bounds (.call f :: acts) acts args.base).Meets m (runBuiltin P b args m)
      (W.builtin PW (.call f :: acts) b args m) := by
  by_cases hb : b.isPlain
  · have hW : W.builtin PW (.call f :: acts) b args = runBuiltin P b args := by
      cases b <;> first | rfl | cases hb
    rw [hW]
    exact G.still (fun m => (runBuiltin_answers P P (Abreast.closed m) (Abreast.shares m args) hb
      fun i _ a b h => h.slot args i).inStep) m hm
  · have hS := fun m => Abreast.shares (F := F) (S := S) m args
    cases b with
    | tostring =>
      refine (G.still (V := Eq) fun m => Args.checkAny_inStep (Abreast.closed m) (hS m) 1 _).bind
        (fun v => ?_) m hm
      refine Agrees.bind (fun m hm => ?_) fun _ =>
        G.still (V := Eq) fun m => give_inStep (Abreast.closed m) _
      exact G.base_mono (Nat.le_add_right args.base 1) (G.display_agrees (hP _) (args.child 1) v m hm)
    | print =>
      refine (G.still (V := Eq) fun m => valuesFrom_inStep (Abreast.closed m) (hS m) 0).bind
        (fun values => ?_) m hm
      refine Agrees.bind (fun m hm => ?_) fun _ => G.still (V := Eq) fun m =>
        (emit_inStep (Abreast.closed m) _).seq fun _ => giveAll_inStep (Abreast.closed m) _
      exact G.base_mono (Nat.le_add_right args.base _)
        (G.line_agrees (hP _) (args.child values.length) values m hm)
    | create => exact G.create_agrees args m hm
    | resume => exact G.resumeNative_meets hP hm
    | yield => exact G.yieldNative_meets hm
    | status => exact G.status_agrees args m hm
    | running => exact G.running_agrees args.base m hm
    | isyieldable => exact G.isyieldable_agrees args.base m hm
    | wrap => exact G.wrap_agrees args m hm
    | _ => exact (hb rfl).elim

variable [QuietHost F S]

theorem function_meets (hP : ∀ acts, G.Serves acts P (PW acts)) (fuel : Nat) {args : View}
    {m : Machine F S} (hm : G.inv (.call f :: acts) m) :
    (G.bounds (.call f :: acts) acts args.base).Meets m (runFunction fuel P f args m)
      (W.function PW (.call f :: acts) fuel f args m) := by
  unfold runFunction Watch.function
  rw [functionAt_bind, functionAt_bind]
  cases hc : m.heap.function f with
  | closure proto cells =>
    exact G.enterBody_meets (G.run_agrees (hP _) fuel f proto) hm (by rw [hc]; rfl)
  | builtin b => exact G.builtin_meets hP b hm
  | protectedCall p => exact G.protectedCall_meets hP hm hc
  | wrapped co => exact G.callWrapped_meets hP co args m hm
  | routine r => exact G.enterBody_meets (G.routine_agrees (hP _) fuel r) hm (by rw [hc]; rfl)
  | host h => exact G.host_meets hm (QuietHost.invoke _ _ f h args m)

theorem reentry_meets (hP : ∀ acts, G.Serves acts P (PW acts)) (fuel : Nat) (link : Link)
    (inner : List Link) (values : List Val) {window : View} {m : Machine F S}
    (hm : G.inv (.call link.function :: acts) m) :
    (G.bounds (.call link.function :: acts) acts window.base).Meets m
      (reenterFunction fuel P link inner values window m)
      (W.reentry PW (.call link.function :: acts) fuel link inner values window m) := by
  obtain ⟨f, index, saved⟩ := link
  unfold reenterFunction Watch.reentry
  dsimp only
  rw [functionAt_bind, functionAt_bind]
  cases hc : m.heap.function f with
  | closure proto cells =>
    exact G.reenterBody_meets (hP _) (G.run_agrees (hP _) fuel f proto) hm (by rw [hc]; rfl)
  | routine r =>
    exact G.reenterBody_meets (hP _) (G.routine_agrees (hP _) fuel r) hm (by rw [hc]; rfl)
  | protectedCall p => exact G.resumeProtected_meets hP hm hc
  | host h => exact G.host_meets hm (QuietHost.reenter _ _ f h window index saved inner values m)
  | builtin | wrapped => exact ⟨rfl, G.own trivial, hm, .refl _ _⟩

/-! ## Calls -/

omit [HostBody F S] [QuietHost F S] in
/-- What is checked on entering and on leaving holds. -/
theorem around_meets {base : Nat} {x y : M F S Unit} {m : Machine F S} (hm : G.inv acts m)
    (h : (G.bounds acts permitted base).Meets m (x m) (y m)) :
    (G.bounds acts permitted base).Meets m (x m) (W.around acts y m) := by
  unfold Watch.around
  rw [if_pos (G.within hm)]
  cases hr : x m with
  | ok a t =>
    rw [hr] at h
    obtain ⟨hy, hinv, hsince⟩ := h
    rw [hy]
    exact ⟨if_pos (G.within hinv), hinv, hsince⟩
  | error e t =>
    rw [hr] at h
    cases e with
    | suspend s =>
      refine ⟨fun hp => ?_, h.2⟩
      rw [h.1 hp]
      exact if_pos fun _ => G.within h.2.1.1
    | fault f =>
      refine ⟨?_, h.2⟩
      rw [h.1]
      exact if_pos fun _ => G.within h.2.2.1
    | overflow =>
      rw [show y m = .error .overflow t from h]
      exact if_pos fun hregular => hregular.elim
    | exhausted =>
      rw [show y m = .error .exhausted t from h]
      exact if_pos fun hregular => hregular.elim

omit [HostBody F S] [QuietHost F S] in
theorem evolves_leave {base : Nat} {m t : Machine F S} (h : (entered m).Evolves base t) :
    m.Evolves base (Machine.leave t) :=
  { h with depth := by show t.thread.depth - 1 = _; rw [h.depth]; rfl }

omit [HostBody F S] [QuietHost F S] in
theorem enter_eq (m : Machine F S) : (Machine.enter : M F S Unit) m =
    if m.world.config.maxCallDepth ≤ m.thread.depth then
      .error (.fault (.stackOverflow m.thread.depth)) m
    else .ok () (entered m) := by
  show (if m.world.config.maxCallDepth ≤ m.thread.depth then _ else _ : M F S Unit) m = _
  split <;> rfl

omit [HostBody F S] [QuietHost F S] in
theorem counted_eq (x : M F S Unit) (m : Machine F S) :
    (do Machine.enter; ensuring x Machine.leave) m =
      if m.world.config.maxCallDepth ≤ m.thread.depth then
        .error (.fault (.stackOverflow m.thread.depth)) m
      else ensuring x Machine.leave (entered m) := by
  have henter := enter_eq m
  by_cases h : m.world.config.maxCallDepth ≤ m.thread.depth
  · rw [if_pos h] at henter ⊢
    exact bind_of_error henter
  · rw [if_neg h] at henter ⊢
    exact bind_of_ok henter

omit [QuietHost F S] in
/-- A call that finds a function shapes the arguments and is counted. -/
theorem invoke_resolved {w w₁ : View} {target : Val} {m t : Machine F S}
    (h : resolve w target m.world.config.maxMetaChain m = .ok (f, w₁) t) :
    ∃ args u x, shape (t.heap.function f).arity w₁ t = .ok args u ∧ ∀ r : Runner F S,
      invoke r w target m =
        (do Machine.enter; ensuring (r.run f args) Machine.leave) { u with trace := x } := by
  obtain ⟨k, s, y, hshape⟩ := shape_ok (t.heap.function f).arity w₁ t
  obtain ⟨x, hx⟩ := record_ok (t.restack s y) fun _ =>
    .invoke (t.heap.function f).name k t.thread.depth
  refine ⟨_, _, x, hshape, fun r => ?_⟩
  have hconfig : (config : M F S Config) m = .ok m.world.config m := rfl
  refine (bind_of_ok hconfig).trans ((bind_of_ok h).trans ?_)
  exact (functionAt_bind f _ t).trans ((bind_of_ok hshape).trans (bind_of_ok hx))

omit [HostBody F S] [QuietHost F S] in
/-- A call is counted in, unless the depth is at its limit, and counted out, however it ends. -/
theorem counted_meets (hlimits : G.Limits) {base : Nat} {x y : M F S Unit} {m : Machine F S}
    (hm : G.inv acts m)
    (h : ∀ m, G.inv (.call f :: acts) m →
      (G.bounds (.call f :: acts) acts base).Meets m (x m) (y m)) :
    (G.bounds acts acts base).Meets m ((do Machine.enter; ensuring x Machine.leave) m)
      ((do Machine.enter; ensuring y Machine.leave) m) := by
  rw [counted_eq, counted_eq]
  split
  · rename_i hmax
    exact ⟨rfl, hlimits acts m hm hmax, hm, .refl _ _⟩
  · have h := h (entered m) (G.enter f hm (by omega))
    unfold ensuring
    cases hr : x (entered m) with
    | ok a t =>
      rw [hr] at h
      obtain ⟨hy, hinv, hsince⟩ := h
      rw [hy]
      exact ⟨rfl, G.leave hinv, evolves_leave hsince⟩
    | error e t =>
      rw [hr] at h
      cases e with
      | suspend s =>
        obtain ⟨hy, ⟨hinv, hlost⟩, hsince⟩ := h
        exact ⟨fun hp => by rw [hy hp], ⟨G.leave hinv, G.lost_leave hlost⟩, evolves_leave hsince⟩
      | fault c =>
        obtain ⟨hy, hraises, hinv, hsince⟩ := h
        rw [hy]
        exact ⟨rfl, hraises, G.leave hinv, evolves_leave hsince⟩
      | overflow => rw [show y (entered m) = .error .overflow t from h]; rfl
      | exhausted => rw [show y (entered m) = .error .exhausted t from h]; rfl

/-- Functions are run and re-entered within the bounds, and the same by `r'`. -/
structure Runs (acts : List Activity) (r r' : Runner F S) : Prop where
  run : ∀ {f args m}, G.inv (.call f :: acts) m →
    (G.bounds (.call f :: acts) acts args.base).Meets m (r.run f args m) (r'.run f args m)
  rerun : ∀ {link inner values window m}, G.inv (.call link.function :: acts) m →
    (G.bounds (.call link.function :: acts) acts window.base).Meets m
      (r.rerun link inner values window m) (r'.rerun link inner values window m)

theorem runs (hP : ∀ acts, G.Serves acts P (PW acts)) (acts : List Activity) (fuel : Nat) :
    G.Runs acts (runner fuel P) (W.runner PW acts fuel) where
  run hm := G.around_meets hm (G.function_meets hP fuel hm)
  rerun hm := G.around_meets hm (G.reentry_meets hP fuel _ _ _ hm)

variable (hlimits : G.Limits) {r r' : Runner F S} (hr : G.Runs acts r r')

include hlimits hr

omit [QuietHost F S] in
theorem invoke_agrees (window : View) (target : Val) :
    Agrees (G.bounds acts acts window.base) (invoke r window target) (invoke r' window target) := by
  intro m hm
  unfold invoke
  refine Bounds.Meets.bind (G.still (fun m => config_inStep (Abreast.closed m)) m hm)
    fun config t _ ht _ => ?_
  have hresolve : Paired (Parted (.self t window.base)) (Windows (.self t window.base) window.top)
      (resolve window target config.maxMetaChain) (resolve window target config.maxMetaChain) _ :=
    resolve_paired target config.maxMetaChain
  refine Bounds.Meets.bind (G.windows ht hresolve ?_) fun found u hfound hu _ => ?_
  · rintro a b t t' ⟨-, n, h⟩
    exact h.2.2.toParted
  · have hx := hresolve t t (.self t window.base window.top)
    rw [hfound] at hx
    obtain ⟨-, n, hwindow, -, -⟩ := hx
    obtain ⟨f, found⟩ := found
    obtain rfl : found = ⟨window.base, n⟩ := hwindow
    refine Bounds.Meets.bind (G.still (fun m => functionAt_inStep (Abreast.closed m) f) u hu)
      fun callable v _ hv _ => ?_
    have hshape : Paired (Parted (.self v window.base)) (Windows (.self v window.base) n)
        (shape callable.arity ⟨window.base, n⟩) (shape callable.arity ⟨window.base, n⟩) _ :=
      shape_paired callable.arity
    refine Bounds.Meets.bind (G.windows hv hshape ?_) fun args w hargs hw _ => ?_
    · rintro a b t t' ⟨k, h⟩
      exact h.2.2.2.toParted
    · have hx := hshape v v (.self v window.base n)
      rw [hargs] at hx
      obtain ⟨k, rfl, -⟩ := hx
      refine (G.still fun m => get_inStep (Abreast.closed m)).bind (fun x => ?_) w hw
      refine (G.still fun m => record_inStep (Abreast.closed m) _ _).bind fun _ => ?_
      exact fun m hm => G.counted_meets hlimits hm fun m hm => hr.run hm

omit [QuietHost F S] in
theorem drain_agrees (window : View) (n : Nat) :
    Agrees (G.bounds acts acts window.base) (drain r window n) (drain r' window n) := by
  induction n generalizing window with
  | zero => exact fun _ _ => rfl
  | succ n ih =>
    unfold drain
    refine (G.still fun m => takeTailCall_inStep (Abreast.closed m) (Abreast.hears m)).bind fun target => ?_
    cases target with
    | none => exact Agrees.pure _
    | some target =>
      refine (G.still fun m => get_inStep (Abreast.closed m)).bind fun x => ?_
      intro m hm
      refine G.load_bind_meets hm fun t ht => ?_
      refine (G.still fun m => record_inStep (Abreast.closed m) _ _).bind (fun _ => ?_) t ht
      have h := fun args : View => (G.invoke_agrees hlimits hr args target).bind fun _ => ih args
      exact h ⟨window.base, x.thread.results.values.length⟩

omit [QuietHost F S] in
theorem reenter_agrees (link : Link) (inner : List Link) (values : List Val) (window : View) :
    Agrees (G.bounds acts acts window.base) (reenter r link inner values window)
      (reenter r' link inner values window) := by
  refine (G.still fun m => get_inStep (Abreast.closed m)).bind fun x => ?_
  refine (G.still fun m => record_inStep (Abreast.closed m) _ _).bind fun _ => ?_
  exact fun m hm => G.counted_meets hlimits hm fun m hm => hr.rerun hm

omit [QuietHost F S] in
theorem step_serves (fuel : Nat) : G.Serves acts (step r fuel) (step r' fuel) := by
  intro request
  cases request with
  | call window target =>
    exact (G.invoke_agrees hlimits hr window target).bind fun _ => G.drain_agrees hlimits hr window fuel
  | replay links values window =>
    cases links with
    | nil => exact G.still fun m => giveAll_inStep (Abreast.closed m) values
    | cons link inner =>
      exact (G.reenter_agrees hlimits hr link inner values window).bind fun _ =>
        G.drain_agrees hlimits hr window fuel

omit hlimits hr in
/-- **Runs keep regimes.** Carrying out a request keeps the regime, changes nothing below its
window and restores the counters, and the watched run goes the same way. -/
theorem perform_agrees (hlimits : G.Limits) (n : Nat) (acts : List Activity) :
    G.Serves acts (perform n) (W.perform n acts) := by
  induction n generalizing acts with
  | zero => exact fun _ _ _ => rfl
  | succ fuel ih => exact G.step_serves hlimits (G.runs ih acts fuel) fuel

/-! ## Calls from outside -/

omit [QuietHost F S] hlimits hr in
/-- A call from outside keeps a regime in which all suspensions count. -/
theorem outside_agrees (hP : G.Serves [] P P') (hpermits : ∀ s, G.permits [] s)
    (target : Val) (args : List Val) : Agrees (G.bounds [] [] 0)
      (callFromOutside P target args) (callFromOutside P' target args) := by
  intro m hm
  have hcall := G.callWith_agrees hP .root target args m hm
  refine G.attempt_meets (Nat.le_refl _) hcall (fun _ t hinv _ => ?_)
    (fun f t hraises hinv _ => ⟨rfl, hraises, hinv, .refl _ _⟩) (fun s t r hlost _ hr => ?_)
    fun e he => ?_
  · exact G.still (V := Eq) (fun m => takeResults_inStep (Abreast.closed m) (Abreast.hears m)) t hinv
  · exact ⟨hr (hpermits s), G.own trivial, hlost.1, .refl _ _⟩
  · cases e <;> first | exact (he trivial).elim | exact ⟨rfl, rfl⟩

end Regime

end ScriptCore
