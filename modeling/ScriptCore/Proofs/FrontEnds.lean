import ScriptCore.Proofs.ChannelRequests
import ScriptCore.Proofs.DeeperRuns
import ScriptCore.Proofs.Entries
import ScriptCore.Proofs.TailCalls

/-!
# Two ways to resume a coroutine

A script resumes a coroutine by the library function for it, or calls the wrapped coroutine, under
protection if the script is to go on behind a fault. Both ways come down to one resume of the
coroutine with the same values in the same window (`callResumer_endures`): the function that resumes
skips the coroutine in front of the values, and the protected call skips the wrapped coroutine. But
the latter is one call deeper. So the two ways agree, in sessions of any length, unless that call
makes the calls overflow (`wrap_agrees_with_resume`).
-/

namespace ScriptCore

open Machine

/-! ## Arguments -/

section Arguments

variable {F S : Type} {w : View} {m : Machine F S} {v : Val} {vs : List Val}

namespace View

/-- Above all live slots of a window nothing is live. -/
theorem child_top_eq (w : View) : w.child w.top = ⟨w.base + w.top, 0⟩ := by
  rw [child, Nat.sub_self]

/-- A window whose live values are known has the first of them in its first slot. -/
theorem get_of_live (h : w.live m = v :: vs) : w.get m.thread.stack m.heap.cells 0 = v := by
  have hpos : 0 < (w.live m).length := by rw [h]; exact Nat.succ_pos _
  rw [← getElem_live hpos]
  simp only [h, List.getElem_cons_zero]

end View

namespace Args

theorem arg_first (h : w.live m = v :: vs) : arg w 1 m = .ok v m := by
  have htop := View.top_of_live h
  unfold arg
  rw [if_neg (by simp [htop]), ← View.get_of_live h]
  rfl

theorem checkCoroutine_first {co : CoId} (h : w.live m = .co co :: vs) (name : String) :
    checkCoroutine w 1 name m = .ok co m := bind_of_ok (arg_first h)

theorem checkFunction_first {f : FnId} (h : w.live m = .fn f :: vs) (name : String) :
    checkFunction w 1 name m = .ok f m := bind_of_ok (arg_first h)

end Args

theorem Machine.valuesFrom_live (w : View) (n : Nat) (m : Machine F S) :
    valuesFrom w n m = .ok ((w.live m).drop n) m := by
  rw [← View.valuesFrom_eq]
  rfl

end Arguments

/-! ## Native functions -/

namespace Coroutines

variable {F S : Type} {P : Perform F S} {w : View} {m : Machine F S} {co : CoId} {values : List Val}

/-- What the function that resumes makes of the ending of the resume. -/
def reply : Except Unwind Outcome → M F S Unit
  | .ok _ => prependResult (.bool true)
  | .error (.fault f) => if f.isCatchable then giveAll [.bool false, f.value] else fail f
  | .error e => throw e

theorem resume_first (h : w.live m = .co co :: values) : Coroutines.resume P w m =
    (attempt (Machine.resume P ⟨w.base + (values.length + 1), 0⟩ co values) >>= reply) m := by
  have hrest : valuesFrom w 1 m = .ok values m := by rw [valuesFrom_live, h]; rfl
  have htop : w.top = values.length + 1 := View.top_of_live h
  unfold Coroutines.resume
  rw [← htop, bind_of_ok (Args.checkCoroutine_first h _), bind_of_ok hrest, View.child_top_eq]
  rfl

theorem callWrapped_live (h : w.live m = values) : callWrapped P co w m =
    (Machine.resume P ⟨w.base + values.length, 0⟩ co values >>= fun _ => pure ()) m := by
  have hrest : valuesFrom w 0 m = .ok values m := by rw [valuesFrom_live, h]; rfl
  have htop : w.top = values.length := View.top_of_live h
  unfold callWrapped
  rw [← htop, bind_of_ok hrest, View.child_top_eq]

/-- A function is made the body of a new coroutine. -/
theorem create_first {body : FnId} (h : w.live m = .fn body :: values) :
    create w m = .ok () ((m.withCoroutine (.fn body)).withResults
      [.co ⟨m.heap.coroutines.size⟩]) :=
  bind_of_ok (Args.checkFunction_first h _)

/-- A function is made the body of a new coroutine, which is wrapped. -/
theorem wrap_first {body : FnId} (h : w.live m = .fn body :: values) :
    wrap w m = .ok () (((m.withCoroutine (.fn body)).pushed
      (.wrapped ⟨m.heap.coroutines.size⟩)).withResults [.fn ⟨m.heap.functions.size⟩]) :=
  bind_of_ok (Args.checkFunction_first h _)

end Coroutines

theorem Base.protectedCall_first {F S : Type} [HostFunction F] {P : Perform F S} {f : FnId}
    {w : View} {m : Machine F S} {v : Val} {vs : List Val} (h : w.live m = v :: vs) :
    protectedCall P f .plain w m =
      (attempt (P (.call (w.child 1) v)) >>= settle P f .plain (w.child 1) .nil) m := by
  have htop : 0 < w.top := by rw [View.top_of_live h]; exact Nat.succ_pos _
  rw [← View.get_of_live h]
  exact bind_of_ok (checkAny_ok htop _ m)

/-- A fault that is caught leaves false and its value. -/
theorem Base.settle_caught {F S : Type} [HostFunction F] (P : Perform F S) (function : FnId)
    (window : View) (handler : Val) {f : Fault} (hf : f.isCatchable) (m : Machine F S) :
    ∃ x, settle P function .plain window handler (.error (.fault f)) m =
      giveAll [.bool false, f.value] { m with trace := x } := by
  obtain ⟨x, hx⟩ := record_ok m fun _ => .caught Protection.plain.name (m.heap.message f)
  refine ⟨x, ?_⟩
  simp only [settle, hf]
  exact bind_of_ok hx

/-- A call of a function that takes its arguments as they are. -/
theorem step_variadic {F S : Type} [HostBody F S] {f : FnId} {m : Machine F S}
    (hf : (m.heap.function f).arity = .variadic) (w : View) : ∃ x, ∀ fuel (P : Perform F S) l,
      step (runner fuel P) l (.call w (.fn f)) m =
        ((do enter; ensuring (runFunction fuel P f w) leave) >>= fun _ => drain (runner fuel P) w l)
          { m with trace := x } := by
  have hresolve : (resolve w (.fn f) m.world.config.maxMetaChain : M F S (FnId × View)) m =
    .ok (f, w) m := by rw [resolve_fn]; rfl
  obtain ⟨args, u, x, hshape, hinvoke⟩ := Regime.invoke_resolved hresolve
  rw [hf] at hshape
  cases hshape
  exact ⟨x, fun fuel P l => bind_at (hinvoke (runner fuel P))⟩

/-! ## Both ways -/

/-- The functions by which a coroutine is resumed: `r` resumes, `w` is the wrapped coroutine and `p`
calls under protection. -/
structure Machine.FrontEnds (m : Machine Empty PUnit) (co : CoId) (r p w : FnId) : Prop where
  resume : m.heap.function r = .builtin .resume
  protect : m.heap.function p = .protectedCall .plain
  wrapped : m.heap.function w = .wrapped co

section FrontEnds

variable {g : Gap} {a b : Machine Empty PUnit} {co : CoId} {r p w : FnId} {values : List Val}

theorem roomy_settled (n : Nat) : Settles (roomy n : Perform Empty PUnit) where
  clear request := fun m v t h => by
    obtain ⟨_, ht⟩ | heq := roomy_outlasts n request m
    · rw [ht] at h
      cases h
    · exact (perform_settled n).clear request m v t (heq.symm.trans h)
  settled := roomy_settles

/-- A call of the wrapped coroutine, and the resume that it makes one call deeper. -/
theorem callWrapped_endures (h : Deeper g a b) {v : View} (hv : g.base ≤ v.base)
    (hw : b.heap.function w = .wrapped co) (hlive : v.live b = values) (n : Nat) :
    Endures (· = .overflow) (Raised g) (fun _ _ => Deeper g)
      (resume (roomy (n + 1)) ⟨v.base + values.length, 0⟩ co values a)
      (roomy (n + 2) (.call v (.fn w)) b) := by
  let window : View := ⟨v.base + values.length, 0⟩
  obtain ⟨x, hx⟩ := step_variadic (by rw [hw]; rfl) v (m := b)
  let c : Machine Empty PUnit := { b with trace := x }
  have hrun : runFunction (n + 1) (roomy (n + 1)) w v (entered c) =
      (resume (roomy (n + 1)) window co values >>= fun _ => pure ()) (entered c) := by
    unfold runFunction
    rw [functionAt_bind, show (entered c).heap.function w = .wrapped co from hw]
    exact Coroutines.callWrapped_live hlive
  -- the call counts on the right only
  have hresume := resume_alongside (sustained (n + 1)) (w := window)
    (h.setTrace a.trace x).enteredRight (Nat.le_add_right_of_le hv) co values
  have hcalled : Endures (· = .overflow) (Raised g.widened)
      (fun _ _ a b => Deeper g.widened a b ∧ b.thread.results.Settled)
      (resume (roomy (n + 1)) window co values a)
      (runFunction (n + 1) (roomy (n + 1)) w v (entered c)) := by
    rw [hrun]
    exact hresume.reached.endsRight fun _ _ _ b hend =>
      ⟨(), b, rfl, hend.1.2, resume_settled (roomy_settled (n + 1)) hend.2⟩
  have hcounted := hcalled.countedRight (E := Raised g)
    (Q := fun _ _ a b => Deeper g a b ∧ b.thread.results.Settled)
    (fun _ _ _ h => ⟨h.1, h.2.leaveRight⟩) fun _ _ _ _ h => ⟨h.1.leaveRight, h.2⟩
  have hstep : Endures Unwind.Halts (Raised g) (fun _ _ => Deeper g)
      (resume (roomy (n + 1)) window co values a)
      (step (runner (n + 1) (roomy (n + 1))) (n + 1) (.call v (.fn w)) b) := by
    rw [hx]
    exact hcounted.endsRight fun _ _ _ b hend => ⟨(), b, drain_idle _ hend.2 _ _, hend.1⟩
  exact hstep.haltingRight.mono (fun _ h => h) (fun _ _ _ h => h.2) fun _ _ _ _ h => h

/-- **Both ways.** What the function that resumes does, and what a protected call of the wrapped
coroutine does. -/
theorem resume_endures (h : Deeper g a b) (hf : b.FrontEnds co r p w) {v : View}
    (hv : g.base = v.base + 1) (ha : v.live a = .co co :: values)
    (hb : v.live b = .fn w :: values) (n : Nat) :
    Endures (· = .overflow) (fun _ => Deeper g)
      (fun _ _ a b => Deeper g a b ∧ a.thread.results.Settled)
      (Coroutines.resume (roomy (n + 1)) v a)
      (Base.protectedCall (roomy (n + 2)) p .plain v b) := by
  have hclosed := Deeper.closed g
  rw [Coroutines.resume_first ha, Base.protectedCall_first hb]
  have hlive : (v.child 1).live b = values := by rw [View.live_child, hb]; rfl
  have hcall := callWrapped_endures h (v := v.child 1) (Nat.le_of_eq hv) hf.wrapped hlive n
  rw [show (v.child 1).base + values.length = v.base + (values.length + 1) from by
    show v.base + 1 + values.length = _; omega] at hcall
  refine hcall.attempt (fun _ _ a b h => ?_) (fun e a b hend => ?_) (.of_throw rfl rfl)
  · exact h.answers (prependResult_answers hclosed (Deeper.hears g) (.bool true))
  · obtain ⟨hs, h⟩ := hend
    cases e with
    | suspend s => exact (hs s rfl).elim
    | fault f =>
      by_cases hf : f.isCatchable
      · obtain ⟨y, hy⟩ := Base.settle_caught (roomy (n + 2)) p (v.child 1) .nil hf b
        rw [hy, Coroutines.reply, if_pos hf]
        exact (h.setTrace a.trace y).answers (giveAll_answers hclosed [.bool false, f.value])
      · rw [Coroutines.reply, Base.settle, if_neg hf, if_neg hf]
        exact .error h
    | overflow | exhausted => exact .error h

/-- A call of the function that resumes, and a protected call of the wrapped coroutine. -/
theorem callResumer_endures (h : Deeper g a b) (hf : b.FrontEnds co r p w) {v : View}
    (hv : g.base = v.base + 1) (ha : v.live a = .co co :: values)
    (hb : v.live b = .fn w :: values) (n : Nat) :
    Endures (· = .overflow) (fun _ => Deeper g) (fun _ _ => Deeper g)
      (roomy (n + 2) (.call v (.fn r)) a) (roomy (n + 3) (.call v (.fn p)) b) := by
  have hr : a.heap.function r = .builtin .resume := (h.function_eq r).trans hf.resume
  obtain ⟨x, hx⟩ := step_variadic (by rw [hr]; rfl) v (m := a)
  obtain ⟨y, hy⟩ := step_variadic (by rw [hf.protect]; rfl) v (m := b)
  let a' : Machine Empty PUnit := { a with trace := x }
  let b' : Machine Empty PUnit := { b with trace := y }
  have hleft : runFunction (n + 1) (roomy (n + 1)) r v (entered a') =
      Coroutines.resume (roomy (n + 1)) v (entered a') :=
    runFunction_builtin (show (entered a').heap.function r = _ from hr) _ _ v
  have hright : runFunction (n + 2) (roomy (n + 2)) p v (entered b') =
      Base.protectedCall (roomy (n + 2)) p .plain v (entered b') := by
    unfold runFunction
    rw [functionAt_bind, show (entered b').heap.function p = _ from hf.protect]
  refine Endures.halting (x := step (runner (n + 1) (roomy (n + 1))) (n + 1) _)
    (y := step (runner (n + 2) (roomy (n + 2))) (n + 2) _) ?_
  rw [hx, hy]
  refine (counted_endures (R := fun m => m.thread.results.Settled) (fun _ h => h)
    (h.setTrace x y) fun h => ?_).bind fun _ _ a b hend => ?_
  · rw [hleft, hright]
    exact resume_endures h { hf with } hv ha hb n
  · rw [drain_idle _ hend.2, drain_idle _ (hend.1.results ▸ hend.2)]
    exact .ok hend.1

/-- The same values are loaded behind a first one that differs. -/
theorem Deeper.loadHeads (h : Deeper g a b) {v : View} (hv : g.base = v.base + 1) (x y : Val)
    (values : List Val) (t t' : Option (Array TraceEvent)) :
    Deeper g (a.restack (v.load a.thread.stack (x :: values)).2 t)
      (b.restack (v.load b.thread.stack (y :: values)).2 t') :=
  { h with
    slots := fun i hi => by
      obtain ⟨j, rfl⟩ := Nat.exists_eq_add_of_le (hv ▸ hi)
      rw [restack_stack, restack_stack, View.load_snd, View.load_snd, View.slot_restore,
        View.slot_restore, List.length_map, List.length_map, List.length_cons, List.length_cons,
        show v.base + 1 + j - v.base = j + 1 from by omega]
      split
      · rfl
      · exact h.slots _ hi }

end FrontEnds

/-! ## Steps -/

namespace Errand

/-- A step by the function that resumes. -/
def resuming (r : FnId) (co : CoId) (args : List Val) : Errand := .call (.fn r) (.co co :: args)

/-- A step by a protected call of the wrapped coroutine. -/
def protecting (p w : FnId) (args : List Val) : Errand := .call (.fn p) (.fn w :: args)

end Errand

section Steps

variable {m u : Machine Empty PUnit} {co : CoId} {r p w : FnId} {base d : Nat}

theorem Heap.function_lt {heap : Heap Empty} {f : FnId} {c : Callable Empty}
    (hf : heap.function f = c) (hc : c ≠ default) : f.index < heap.functions.size := by
  refine Nat.lt_of_not_le fun hle => hc ?_
  rw [← hf, Heap.function, Array.getD_eq_getD_getElem?, Array.getElem?_eq_none hle]
  rfl

/-- Functions without a body stay as they are. -/
theorem Machine.Evolves.native (hu : m.Evolves base u) {f : FnId} {c : Callable Empty}
    (hf : m.heap.function f = c) (hbody : c.proto? = none) (hc : c ≠ default) :
    u.heap.function f = c := by
  have hkept := hu.functions f (Heap.function_lt hf hc)
  rw [hf] at hkept
  generalize u.heap.function f = c' at hkept
  cases hkept with
  | same => rfl
  | rebound => cases hbody

theorem Machine.FrontEnds.kept (h : m.FrontEnds co r p w) (hu : m.Evolves base u) :
    u.FrontEnds co r p w where
  resume := hu.native h.resume rfl nofun
  protect := hu.native h.protect rfl nofun
  wrapped := hu.native h.wrapped rfl nofun

/-- With a coroutine that is wrapped, both ways are open. -/
theorem Machine.FrontEnds.of_wrapped (hr : m.heap.function r = .builtin .resume)
    (hp : m.heap.function p = .protectedCall .plain) (co : CoId) (body : Val) :
    ((m.withCoroutine body).pushed (.wrapped co)).FrontEnds co r p ⟨m.heap.functions.size⟩ where
  resume := (function_pushed _ _ r).trans
    ((if_neg (Nat.ne_of_lt (Heap.function_lt hr nofun))).trans hr)
  protect := (function_pushed _ _ p).trans
    ((if_neg (Nat.ne_of_lt (Heap.function_lt hp nofun))).trans hp)
  wrapped := (function_pushed _ _ _).trans (if_pos rfl)

/-- An errand of a call makes its request where the arguments are loaded. -/
theorem Errand.call_run (target : Val) (args : List Val) (v : View) (m : Machine Empty PUnit) :
    ∃ x, ∀ P : Perform Empty PUnit, (Errand.call target args).run P v m =
      (P (.call ⟨v.base, args.length⟩ target) >>= fun _ => pure none)
        (m.restack (v.load m.thread.stack args).2 x) := by
  obtain ⟨x, hx⟩ := onStack_ok (v.load · args) m
  exact ⟨x, fun P => bind_at (bind_of_ok hx)⟩

/-- An errand of a call leaves behind what a request does. -/
theorem Errand.call_evolves {P : Perform Empty PUnit} (hP : Restores P) {target : Val}
    {args : List Val} {v : View} (hu : EndsIn ((Errand.call target args).run P v m) u) :
    m.Evolves v.base u := by
  obtain ⟨x, hx⟩ := Errand.call_run target args v m
  let request : Request := .call ⟨v.base, args.length⟩ target
  have hloaded : m.Evolves v.base (m.restack (v.load m.thread.stack args).2 x) :=
    (undisturbed_restack m _ x).evolves (View.keptBelow_load v _ args)
  refine hloaded.trans (hP request _ u ?_)
  rw [hx] at hu
  cases hr : P request (m.restack (v.load m.thread.stack args).2 x) with
  | ok _ t =>
    rw [bind_of_ok hr] at hu
    exact hu
  | error e t =>
    rw [bind_of_error hr] at hu
    exact hu

/-- **Steps.** A step by the function that resumes, and one by a protected call of the wrapped
coroutine. -/
theorem Errand.resuming_endures {g : Gap} {a b : Machine Empty PUnit} (h : Deeper g a b)
    (hf : b.FrontEnds co r p w) {v : View} (hv : g.base = v.base + 1) (args : List Val) (n : Nat) :
    Endures (· = .overflow) (fun _ => Deeper g) (fun u u' a b => u = u' ∧ Deeper g a b)
      ((resuming r co args).run (roomy (n + 2)) v a)
      ((protecting p w args).run (roomy (n + 3)) v b) := by
  let window : View := ⟨v.base, args.length + 1⟩
  let left : List Val := .co co :: args
  let right : List Val := .fn w :: args
  obtain ⟨x, hx⟩ := Errand.call_run (.fn r) left v a
  obtain ⟨y, hy⟩ := Errand.call_run (.fn p) right v b
  have hloaded := h.loadHeads hv (.co co) (.fn w) args x y
  have ha : window.live (a.restack (v.load a.thread.stack left).2 x) = left :=
    View.live_load v a x
  have hb : window.live (b.restack (v.load b.thread.stack right).2 y) = right :=
    View.live_load v b y
  have hends := callResumer_endures hloaded { hf with } (v := window) hv ha hb n
  unfold resuming protecting
  rw [hx, hy]
  exact hends.bind fun _ _ _ _ h => .ok ⟨rfl, h⟩

/-- The same calls are in progress on both machines. -/
theorem Deeper.sameState {g : Gap} {a b : Machine Empty PUnit} (h : Deeper g a b)
    (hdepth : g.left = g.right) : a.SameState b where
  heap := h.toKin.heap_eq h.function_eq h.coroutines
  world := h.world
  depth := h.left.trans (hdepth.trans h.right.symm)
  boundaries := h.boundaries
  current := h.current
  output := h.output
  journal := h.journal

/-- The place of two machines between two steps. -/
def Gap.level (base d : Nat) : Gap := ⟨base, d, d, Nat.le_refl _⟩

/-- How two steps end: alike, in machines of which one is as the other up to their stacks. -/
structure StepsAlike (d : Nat) (co : CoId) (r p w : FnId)
    (x y : Errand.Ending × Machine Empty PUnit) : Prop where
  ending : x.1 = y.1
  state : Deeper (.level 1 d) x.2 y.2
  frontEnds : y.1.givenUp = false → y.2.FrontEnds co r p w

/-- Two steps end alike, unless the one by the protected call is given up at a stack overflow. -/
theorem Errand.ending_alike {a b : Machine Empty PUnit} (h : Deeper (.level 1 d) a b)
    (hf : b.FrontEnds co r p w) (args : List Val) (n : Nat) :
    StepsAlike d co r p w ((resuming r co args).ending (roomy (n + 2)) a)
        ((protecting p w args).ending (roomy (n + 3)) b) ∨
      ((protecting p w args).ending (roomy (n + 3)) b).1 = .error .overflow := by
  have hends := Errand.resuming_endures h hf (v := .root) rfl args n
  have hevolves {u : Machine Empty PUnit} :
      EndsIn ((protecting p w args).run (roomy (n + 3)) .root b) u → b.Evolves 0 u :=
    Errand.call_evolves (roomy_restores (n + 3))
  unfold Errand.ending
  generalize (resuming r co args).run (roomy (n + 2)) .root a = x at *
  generalize (protecting p w args).run (roomy (n + 3)) .root b = y at *
  obtain ⟨e, t, rfl, rfl⟩ | hends := hends
  · exact .inr rfl
  · cases x <;> cases y
    case ok.ok =>
      obtain ⟨rfl, hends⟩ := hends
      exact .inl ⟨congrArg (fun r => Except.ok (_, r)) hends.results, hends,
        fun _ => hf.kept (hevolves rfl)⟩
    case ok.error => exact hends.elim
    case error.ok => exact hends.elim
    case error.error e _ _ _ =>
      obtain ⟨rfl, hends⟩ := hends
      refine .inl ⟨rfl, hends, fun hgiven => hf.kept (hevolves ⟨?_, rfl⟩)⟩
      cases e with
      | suspend | fault => trivial
      | overflow | exhausted => cases hgiven

/-- Sessions end alike if their steps do. -/
theorem session_alike {P P' : Perform Empty PUnit}
    (hsteps : ∀ {a b}, Deeper (.level 1 d) a b → b.FrontEnds co r p w → ∀ args,
      StepsAlike d co r p w ((Errand.resuming r co args).ending P a)
          ((Errand.protecting p w args).ending P' b) ∨
        ((Errand.protecting p w args).ending P' b).1 = .error .overflow)
    {a b : Machine Empty PUnit} (h : Deeper (.level 1 d) a b) (hf : b.FrontEnds co r p w)
    (argss : List (List Val))
    (hroom : .error .overflow ∉ (session P' (argss.map (.protecting p w)) b).1) :
    (session P (argss.map (.resuming r co)) a).1 =
        (session P' (argss.map (.protecting p w)) b).1 ∧
      Deeper (.level 1 d) (session P (argss.map (.resuming r co)) a).2
        (session P' (argss.map (.protecting p w)) b).2 := by
  induction argss generalizing a b with
  | nil => exact ⟨rfl, h⟩
  | cons args rest ih =>
    rw [List.map_cons, List.map_cons]
    rw [List.map_cons] at hroom
    obtain halike | hover := hsteps h hf args
    · cases hgiven : ((Errand.protecting p w args).ending P' b).1.givenUp with
      | true =>
        rw [session_of_givenUp hgiven, session_of_givenUp (halike.ending ▸ hgiven)]
        exact ⟨congrArg (fun r => [r]) halike.ending, halike.state⟩
      | false =>
        rw [session_of_done hgiven] at hroom ⊢
        rw [session_of_done (halike.ending ▸ hgiven)]
        obtain ⟨hendings, hrest⟩ := ih halike.state (halike.frontEnds hgiven) fun hmem =>
          hroom (List.mem_cons_of_mem _ hmem)
        exact ⟨congrArg₂ List.cons halike.ending hendings, hrest⟩
    · rw [session_of_givenUp (by rw [hover]; rfl), hover] at hroom
      exact (hroom List.mem_cons_self).elim

/-- What is taken down of the ending of a call. -/
def callEnding : EStateM.Result Unwind (Machine Empty PUnit) Unit → Errand.Ending
  | .ok _ t => .ok (none, t.thread.results)
  | .error e _ => .error e

/-- What both ways tell of a resume: true and the values that it hands back, or false and the value
of its fault, unless the fault cannot be caught. -/
def told : EStateM.Result Unwind (Machine Empty PUnit) Outcome → Errand.Ending
  | .ok _ t => .ok (none, .ofValues (.bool true :: t.thread.results.values))
  | .error (.fault f) _ =>
    if f.isCatchable then .ok (none, .ofValues [.bool false, f.value]) else .error (.fault f)
  | .error e _ => .error e

theorem Errand.call_ending (target : Val) (args : List Val) (m : Machine Empty PUnit) :
    ∃ x, ∀ P : Perform Empty PUnit,
      ((Errand.call target args).ending P m).1 = callEnding (P (.call ⟨0, args.length⟩ target)
        (m.restack (View.root.load m.thread.stack args).2 x)) := by
  obtain ⟨x, hx⟩ := Errand.call_run target args .root m
  refine ⟨x, fun P => ?_⟩
  unfold Errand.ending
  rw [hx]
  show _ = callEnding (P (.call ⟨View.root.base, args.length⟩ target) _)
  cases hr : P (.call ⟨View.root.base, args.length⟩ target)
    (m.restack (View.root.load m.thread.stack args).2 x) with
  | ok u t =>
    rw [bind_of_ok hr]
    rfl
  | error e t =>
    rw [bind_of_error hr]
    rfl

theorem Coroutines.resume_told {P : Perform Empty PUnit} (hP : Settles P) {v : View}
    {values : List Val} (h : v.live m = .co co :: values) : callEnding (Coroutines.resume P v m) =
      told (Machine.resume P ⟨v.base + (values.length + 1), 0⟩ co values m) := by
  rw [Coroutines.resume_first h, attempt_ended]
  cases hr : Machine.resume P ⟨v.base + (values.length + 1), 0⟩ co values m with
  | ok o t =>
    simp only [ended, reply]
    rw [prependResult_ok (resume_settled hP hr)]
    rfl
  | error e t =>
    cases e with
    | fault f =>
      simp only [ended, reply, told]
      by_cases hf : f.isCatchable
      · rw [if_pos hf, if_pos hf]
        rfl
      · rw [if_neg hf, if_neg hf]
        rfl
    | suspend | overflow | exhausted => rfl

theorem told_settled {x : EStateM.Result Unwind (Machine Empty PUnit) Outcome}
    {o : Option Outcome} {rs : Results} (h : told x = .ok (o, rs)) : rs.Settled := by
  cases x with
  | ok => cases h; rfl
  | error e =>
    cases e with
    | fault f =>
      by_cases hf : f.isCatchable
      · cases (if_pos hf).symm.trans h
        rfl
      · cases (if_neg hf).symm.trans h
    | suspend | overflow | exhausted => cases h

/-- What is counted in and out, and leaves values, ends as it does by itself. -/
theorem callEnding_counted {x : M Empty PUnit Unit} {runner : Runner Empty PUnit} {v : View}
    {n : Nat} (hroom : m.thread.depth < m.world.config.maxCallDepth)
    (hx : ∀ u t, x (entered m) = .ok u t → t.thread.results.Settled) :
    callEnding (((do enter; ensuring x leave) >>= fun _ => drain runner v (n + 1)) m) =
      callEnding (x (entered m)) := by
  have hcounted := Regime.counted_eq x m
  rw [if_neg (Nat.not_le.2 hroom)] at hcounted
  cases hr : x (entered m) with
  | ok u t =>
    have hsettled : (leave t).thread.results.Settled := hx u t hr
    rw [bind_of_ok (hcounted.trans (ensuring_ok hr)), drain_idle runner hsettled v n]
    rfl
  | error e t =>
    rw [bind_of_error (hcounted.trans (ensuring_error hr))]
    rfl

/-- A step by the function that resumes tells of one resume. -/
theorem Errand.resuming_told (co : CoId) (hr : m.heap.function r = .builtin .resume)
    (hroom : m.thread.depth < m.world.config.maxCallDepth) (args : List Val) (n : Nat) :
    ∃ x, ((resuming r co args).ending (perform (n + 2)) m).1 =
      told (Machine.resume (perform (n + 1)) ⟨args.length + 1, 0⟩ co args
        (entered (m.restack (View.root.load m.thread.stack (.co co :: args)).2 x))) := by
  obtain ⟨x, hx⟩ := Errand.call_ending (.fn r) (.co co :: args) m
  let loaded (x : Option (Array TraceEvent)) : Machine Empty PUnit :=
    m.restack (View.root.load m.thread.stack (.co co :: args)).2 x
  let v : View := ⟨0, args.length + 1⟩
  obtain ⟨y, hy⟩ := step_variadic (f := r) (m := loaded x)
    (by rw [show (loaded x).heap.function r = _ from hr]; rfl) v
  have htold := Coroutines.resume_told (m := entered (loaded y)) (v := v) (perform_settled (n + 1))
    (View.live_load .root m y)
  have hrun : runFunction (n + 1) (perform (n + 1)) r v (entered (loaded y)) =
      Coroutines.resume (perform (n + 1)) v (entered (loaded y)) :=
    runFunction_builtin (show (entered (loaded y)).heap.function r = _ from hr) _ _ v
  rw [← hrun] at htold
  rw [show View.mk (v.base + (args.length + 1)) 0 = ⟨args.length + 1, 0⟩ from
    congrArg (View.mk · 0) (Nat.zero_add _)] at htold
  refine ⟨y, (hx _).trans ((congrArg callEnding (hy _ _ _)).trans ?_)⟩
  refine (callEnding_counted (m := loaded y) hroom fun u t ht => ?_).trans htold
  rw [ht] at htold
  exact told_settled htold.symm

/-- A coroutine that is not suspended is refused. -/
theorem told_refused (P : Perform Empty PUnit) (window : View) (args : List Val)
    (h : (m.heap.coroutine co).status ≠ .suspended) :
    told (Machine.resume P window co args m) = .ok (none, .ofValues [.bool false, (Fault.coroutine
      (if (m.heap.coroutine co).status = .dead then .dead else .active)).value]) := by
  rw [resume_refused P window args h]
  rfl

theorem sessions_agree (h : m.FrontEnds co r p w) (n : Nat) (argss : List (List Val))
    (hroom : .error .overflow ∉ (session (roomy (n + 3)) (argss.map (.protecting p w)) m).1) :
    (session (perform (n + 2)) (argss.map (.resuming r co)) m).1 =
        (session (perform (n + 3)) (argss.map (.protecting p w)) m).1 ∧
      (session (perform (n + 2)) (argss.map (.resuming r co)) m).2.SameState
        (session (perform (n + 3)) (argss.map (.protecting p w)) m).2 := by
  obtain ⟨hendings, hstate⟩ := session_alike (fun h hf args => Errand.ending_alike h hf args n)
    (Deeper.refl 1 m) h argss hroom
  rw [← session_outlasts (roomy_outlasts (n + 3)) _ m hroom,
    ← session_outlasts (roomy_outlasts (n + 2)) _ m (by rw [hendings]; exact hroom)]
  exact ⟨hendings, hstate.sameState rfl⟩

theorem steps_agree (h : m.FrontEnds co r p w) (n : Nat) (args : List Val) (window : View)
    (hroom : ∀ t, (Errand.protecting p w args).run (roomy (n + 3)) window m ≠ .error .overflow t) :
    SameOutcome ((Errand.resuming r co args).run (perform (n + 2)) window m)
      ((Errand.protecting p w args).run (perform (n + 3)) window m) := by
  have hends := Errand.resuming_endures (Deeper.refl (window.base + 1) m) h rfl args n
  have hleft := Errand.run_outlasts (roomy_outlasts (n + 2)) window (.resuming r co args) m
  have hright := Errand.run_outlasts (roomy_outlasts (n + 3)) window (.protecting p w args) m
  obtain ⟨_, t, ht, rfl⟩ | hends := hends
  · exact (hroom t ht).elim
  · replace hright := hright.resolve_left fun ⟨t, ht⟩ => hroom t ht
    replace hleft := hleft.resolve_left <| by
      rintro ⟨t, ht⟩
      rw [ht] at hends
      cases hb : (Errand.protecting p w args).run (roomy (n + 3)) window m with
      | ok =>
        rw [hb] at hends
        exact hends
      | error e u =>
        rw [hb] at hends
        obtain ⟨rfl, -⟩ := hends
        exact hroom u hb
    rw [← hleft, ← hright]
    exact hends.mono (fun _ _ _ h => h.sameState rfl)
      fun _ _ _ _ h => ⟨⟨h.1, h.2.results⟩, h.2.sameState rfl⟩

/-- **The two ways agree.**

1. `create` and `wrap` make the same coroutine of a function, and `wrap` one function more, the
   wrapped coroutine. Where the name of that function is taken beforehand, `create` leaves the machine
   that `wrap` does. There both ways are open, and what they create has the same names.
2. Sessions of resumes and sessions of protected calls of the wrapped coroutine have the same
   endings, after the same writes, and leave machines in one state, unless the calls of the latter
   reach their limit. The machine is any one, and the coroutine in any state: it may be running, so
   that the session is what its own body does.
3. The same holds of one step in any window.
4. A step tells what one resume with its values comes to (`told`): true and the values handed back,
   or false and the value of the fault. A broken contract goes on out of the step. A coroutine that
   is dead or active is refused. -/
theorem wrap_agrees_with_resume :
    (∀ (m : Machine Empty PUnit) (window : View) (body r p : FnId) (rest : List Val),
      window.live m = .fn body :: rest → m.heap.function r = .builtin .resume →
      m.heap.function p = .protectedCall .plain →
      let co : CoId := ⟨m.heap.coroutines.size⟩
      let w : FnId := ⟨m.heap.functions.size⟩
      let created := m.withCoroutine (.fn body)
      let wrapped := created.pushed (.wrapped co)
      Coroutines.create window m = .ok () (created.withResults [.co co]) ∧
        Coroutines.create window (m.pushed (.wrapped co)) =
          .ok () (wrapped.withResults [.co co]) ∧
        Coroutines.wrap window m = .ok () (wrapped.withResults [.fn w]) ∧
        wrapped.FrontEnds co r p w) ∧
    ∀ (m : Machine Empty PUnit) (co : CoId) (r p w : FnId), m.FrontEnds co r p w → ∀ n : Nat,
      (∀ argss : List (List Val),
        .error .overflow ∉ (session (roomy (n + 3)) (argss.map (.protecting p w)) m).1 →
        (session (perform (n + 2)) (argss.map (.resuming r co)) m).1 =
            (session (perform (n + 3)) (argss.map (.protecting p w)) m).1 ∧
          (session (perform (n + 2)) (argss.map (.resuming r co)) m).2.SameState
            (session (perform (n + 3)) (argss.map (.protecting p w)) m).2) ∧
      (∀ (args : List Val) (window : View),
        (∀ t, (Errand.protecting p w args).run (roomy (n + 3)) window m ≠ .error .overflow t) →
        SameOutcome ((Errand.resuming r co args).run (perform (n + 2)) window m)
          ((Errand.protecting p w args).run (perform (n + 3)) window m)) ∧
      ∀ args : List Val, m.thread.depth < m.world.config.maxCallDepth →
        (∃ x, ((Errand.resuming r co args).ending (perform (n + 2)) m).1 =
          told (Machine.resume (perform (n + 1)) ⟨args.length + 1, 0⟩ co args
            (entered (m.restack (View.root.load m.thread.stack (.co co :: args)).2 x)))) ∧
        ((m.heap.coroutine co).status ≠ .suspended →
          ((Errand.resuming r co args).ending (perform (n + 2)) m).1 =
            .ok (none, .ofValues [.bool false, (Fault.coroutine
              (if (m.heap.coroutine co).status = .dead then .dead else .active)).value])) := by
  refine ⟨fun m window body r p rest hlive hr hp => ⟨Coroutines.create_first hlive,
    Coroutines.create_first (m := m.pushed _) hlive, Coroutines.wrap_first hlive,
    .of_wrapped hr hp _ _⟩, fun m co r p w h n => ⟨sessions_agree h n, steps_agree h n,
    fun args hroom => ?_⟩⟩
  obtain ⟨x, htold⟩ := Errand.resuming_told co h.resume hroom args n
  exact ⟨⟨x, htold⟩, fun hstatus => htold.trans (told_refused _ _ _ hstatus)⟩

end Steps

/-- A machine on which the function that yields has been wrapped. -/
def Machine.withYieldWrapped : Machine Empty PUnit :=
  ((start ⟨#[], #[], #[.builtin .resume, .protectedCall .plain, .builtin .yield], #[]⟩ ⟨200, 4, 100⟩
    none ⟨⟩).withCoroutine (.fn ⟨2⟩)).pushed (.wrapped ⟨0⟩)

example : (session (perform 4) ([[.int 1], [.int 2], []].map (.protecting ⟨1⟩ ⟨3⟩))
    withYieldWrapped).1 = [.ok (none, .ofValues [.bool true, .int 1]),
      .ok (none, .ofValues [.bool true, .int 2]),
      .ok (none, .ofValues [.bool false, .str "cannot resume dead coroutine"])] := by cbv

end ScriptCore
