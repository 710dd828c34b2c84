import ScriptCore.Proofs.DeeperBodies
import ScriptCore.Proofs.PausedCalls

/-!
# Runs at another call depth

Whatever is asked of two machines of which one is deeper is carried out alike, unless the deeper run
reaches the limit of calls (`sustained`): native functions, resumes, which turn both machines to a
coroutine and back, and the calls around them, which are counted on both. The induction is on the
fuel, with bodies and natives taking what they ask for from the step before.
-/

namespace ScriptCore

open Machine

variable {g : Gap} {a b : Machine Empty PUnit} {w : View}

/-! ## Native functions -/

section Natives

variable {P : Perform Empty PUnit} (hP : Sustained P)

include hP

/-- A call that may not yield. -/
theorem callNonresumable_alongside (h : Deeper g a b) (hw : g.base ≤ w.base) (target : Val)
    (name : String) :
    Alongside g (callNonresumable P w target name a) (callNonresumable P w target name b) := by
  have hends := hP (.call w target) h.bounded hw
  rw [callNonresumable_eq, callNonresumable_eq]
  obtain ⟨_, t, ht, rfl⟩ | hends := hends
  · rw [ht]
    exact .inl ⟨_, _, rfl, rfl⟩
  · cases hx : P (.call w target) (bounded a) <;> cases hy : P (.call w target) (bounded b) <;>
      rw [hx, hy] at hends
    case ok.ok => exact .ok hends.leaveBoundary
    case ok.error => exact hends.elim
    case error.ok => exact hends.elim
    case error.error e _ _ _ =>
      obtain ⟨rfl, hends⟩ := hends
      cases e with
      | suspend | fault | overflow | exhausted => exact .error hends.leaveBoundary

/-- The text of a value. -/
theorem display_alongside (h : Deeper g a b) (hw : g.base ≤ w.base) (x : Val) :
    Endures (· = .overflow) (fun _ => Deeper g) (fun s t a b => s = t ∧ Deeper g a b)
      (Base.display P w x a) (Base.display P w x b) := by
  have hclosed := Deeper.closed g
  unfold Base.display
  refine h.seq (metamethod_inStep hclosed x .toString) fun h? a b h => ?_
  cases h? with
  | some handler =>
    refine h.load hw [x] fun a b h => ?_
    have hcall := callNonresumable_alongside hP h (w := ⟨w.base, 1⟩) hw handler "__tostring"
    refine hcall.bind fun _ _ a b h => ?_
    refine h.seq (result_inStep (Deeper.hears g) 0) fun text a b h => ?_
    cases text with
    | str s => exact .ok ⟨rfl, h⟩
    | _ => exact .error h
  | none => exact h.last (named_inStep hclosed x)

/-- The texts of values. -/
theorem line_alongside (h : Deeper g a b) (hw : g.base ≤ w.base) (values : List Val) :
    Endures (· = .overflow) (fun _ => Deeper g) (fun s t a b => s = t ∧ Deeper g a b)
      (Base.line P w values a) (Base.line P w values b) := by
  induction values generalizing a b with
  | nil => exact .ok ⟨rfl, h⟩
  | cons x values ih =>
    unfold Base.line
    refine (display_alongside hP h hw x).bind fun text _ a b htext => ?_
    obtain ⟨rfl, h⟩ := htext
    refine (ih h).bind fun texts _ a b htexts => ?_
    obtain ⟨rfl, h⟩ := htexts
    exact .ok ⟨rfl, h⟩

/-- The value that a message handler makes of the value of a fault. -/
theorem handled_alongside (h : Deeper g a b) (hw : g.base ≤ w.base) (handler x : Val) :
    Endures (· = .overflow) (fun _ => Deeper g) (fun s t a b => s = t ∧ Deeper g a b)
      (Base.handled P w handler x a) (Base.handled P w handler x b) := by
  unfold Base.handled
  refine h.load hw [x] fun a b h => ?_
  refine (callNonresumable_alongside hP h (w := ⟨w.base, 1⟩) hw handler "xpcall handler").attempt
    (fun _ _ a b h => h.last (result_inStep (Deeper.hears g) 0)) (fun e a b h => ?_)
    (.of_throw rfl rfl)
  cases e with
  | fault f =>
    dsimp only
    split
    · exact .ok ⟨rfl, h⟩
    · exact .error h
  | suspend | overflow | exhausted => exact .error h

/-- What is made of the ending of a protected callee. -/
theorem settle_alongside (function : FnId) (p : Protection) (hw : g.base ≤ w.base) (handler : Val)
    (ending : Except Unwind Unit) (h : Deeper g a b) :
    Alongside g (Base.settle P function p w handler ending a)
      (Base.settle P function p w handler ending b) := by
  have hclosed := Deeper.closed g
  cases ending with
  | ok => exact h.ends (prependResult_answers hclosed (Deeper.hears g) (.bool true)).inStep
  | error e =>
    cases e with
    | suspend s =>
      obtain ⟨t, ht⟩ := suspendWith_ok function 1 ⟨[], 0, [handler]⟩ s a
      obtain ⟨t', ht'⟩ := suspendWith_ok function 1 ⟨[], 0, [handler]⟩ s b
      unfold Base.settle
      dsimp only
      rw [ht, ht']
      exact .error (h.setTrace t t')
    | fault f =>
      unfold Base.settle
      dsimp only
      split
      · refine h.after (get_inStep hclosed) fun m m' a b hget => ?_
        refine hget.2.seq (record_inStep hclosed _ _) fun _ a b h => ?_
        cases p with
        | plain => exact h.ends (giveAll_inStep hclosed _)
        | handler =>
          refine (handled_alongside hP h hw handler f.value).bind fun x _ a b hx => ?_
          obtain ⟨rfl, h⟩ := hx
          exact h.ends (giveAll_inStep hclosed _)
      · exact .error h
    | overflow | exhausted => exact .error h

/-- A request under protection, and what is made of its ending. -/
theorem guarded_alongside (function : FnId) (p : Protection) (handler : Val) (h : Deeper g a b)
    (request : Request) (hrequest : g.base ≤ request.window.base) :
    Alongside g ((attempt (P request) >>= Base.settle P function p request.window handler) a)
      ((attempt (P request) >>= Base.settle P function p request.window handler) b) :=
  (hP request h hrequest).attempt
    (fun _ _ _ _ h => settle_alongside hP function p hrequest handler (.ok ()) h)
    (fun e _ _ h => settle_alongside hP function p hrequest handler (.error e) h)
    (.of_throw rfl rfl)

/-- A protected call. -/
theorem protectedCall_alongside (function : FnId) (p : Protection) (h : Deeper g a b)
    (hw : g.base ≤ w.base) :
    Alongside g (Base.protectedCall P function p w a) (Base.protectedCall P function p w b) := by
  have hclosed := Deeper.closed g
  have hshares : Shares (Deeper g) w w := Deeper.shares hw
  have hcall (handler target : Val) (first : Nat) {a b : Machine Empty PUnit} (h : Deeper g a b) :=
    guarded_alongside hP function p handler h (.call (w.child first) target)
      (Nat.le_add_right_of_le hw)
  unfold Base.protectedCall
  refine h.seq (Args.checkAny_inStep hclosed hshares 1 p.name) fun target a b h => ?_
  cases p with
  | plain => exact hcall .nil target 1 h
  | handler =>
    exact h.seq (Args.checkAny_inStep hclosed hshares 2 Protection.handler.name)
      fun handler a b h => hcall handler target 2 h

/-- A protected call that goes on behind its callee. -/
theorem resumeProtected_alongside (function : FnId) (p : Protection) (h : Deeper g a b)
    (hw : g.base ≤ w.base) (index : Nat) (saved : Saved) (inner : List Link) (values : List Val) :
    Alongside g (Base.resumeProtected P function p w index saved inner values a)
      (Base.resumeProtected P function p w index saved inner values b) := by
  unfold Base.resumeProtected
  split
  · exact .error h
  · exact guarded_alongside hP function p _ h (.replay inner values w) hw

/-! ## Resumes -/

/-- What runs in a coroutine that is resumed. -/
theorem segment_alongside (h : Deeper g a b) (hw : g.base ≤ w.base) (values : List Val)
    {c : Coroutine} (hc : c.status = .suspended) :
    Alongside g (segment P w values c a) (segment P w values c b) := by
  cases c with
  | fresh body => exact h.load hw values fun a b h => hP (.call ⟨w.base, values.length⟩ body) h hw
  | suspended chain => exact hP (.replay chain values w) h hw
  | running | normal | dead => cases hc

/-- Two machines that have ended early, and not in a suspension. -/
abbrev Raised (g : Gap) (e : Unwind) (a b : Machine Empty PUnit) : Prop :=
  (∀ s, e ≠ .suspend s) ∧ Deeper g a b

omit hP in
/-- What is made of the ending of a segment. It is never a suspension. -/
theorem handBack_alongside (h : Deeper g a b) (outer : Option CoId) (boundaries : Nat) (co : CoId)
    (ending : Except Unwind Unit) :
    Endures (· = .overflow) (Raised g) (fun o o' a b => o = o' ∧ Deeper g a b)
      (handBack outer boundaries co ending a) (handBack outer boundaries co ending b) := by
  have hthrow (e : Unwind) (he : ¬ e.Regular) (hs : ∀ s, e ≠ .suspend s) :
      Endures (· = .overflow) (Raised g) (fun o o' a b => o = o' ∧ Deeper g a b)
        (handBack outer boundaries co (.error e) a)
        (handBack outer boundaries co (.error e) b) := by
    obtain ⟨t, ht⟩ := handBack_throw outer boundaries co a he
    obtain ⟨t', ht'⟩ := handBack_throw outer boundaries co b he
    rw [ht, ht']
    exact .error ⟨hs, (h.returnedTo outer boundaries).setTrace t t'⟩
  cases ending with
  | ok u =>
    obtain ⟨t, ht⟩ := handBack_ok outer boundaries co a
    obtain ⟨t', ht'⟩ := handBack_ok outer boundaries co b
    rw [ht, ht']
    exact .ok ⟨rfl, (h.turnedBack outer boundaries co .dead).setTrace t t'⟩
  | error e =>
    cases e with
    | suspend s =>
      obtain ⟨t, ht⟩ := handBack_suspend outer boundaries co a s
      obtain ⟨t', ht'⟩ := handBack_suspend outer boundaries co b s
      rw [ht, ht']
      have hback := (h.turnedBack outer boundaries co (.suspended s.chain)).setTrace t t'
      refine Endures.bind (.inr ((giveAll_inStep (Deeper.closed g) s.values).concur hback
        fun _ _ _ he h => ⟨fun s hs => ?_, h⟩)) fun _ _ a b h => .ok ⟨rfl, h.2⟩
      rw [hs] at he
      exact he
    | fault f =>
      obtain ⟨t, ht⟩ := handBack_fault outer boundaries co a f
      obtain ⟨t', ht'⟩ := handBack_fault outer boundaries co b f
      rw [ht, ht']
      exact .error ⟨nofun, (h.turnedBack outer boundaries co .dead).setTrace t t'⟩
    | overflow => exact hthrow .overflow id nofun
    | exhausted => exact hthrow .exhausted id nofun

/-- **Resumes.** A resume of one coroutine with some values. It never ends in a suspension. -/
theorem resume_alongside (h : Deeper g a b) (hw : g.base ≤ w.base) (co : CoId) (values : List Val) :
    Endures (· = .overflow) (Raised g) (fun o o' a b => o = o' ∧ Deeper g a b)
      (resume P w co values a) (resume P w co values b) := by
  have hco := h.coroutine_eq co
  by_cases hc : (a.heap.coroutine co).status = .suspended
  · obtain ⟨t, ht⟩ := resume_eq values hc
    obtain ⟨t', ht'⟩ := resume_eq values (m := b) (hco ▸ hc)
    rw [ht, ht', ← h.current, ← h.boundaries, ← hco]
    exact (segment_alongside hP ((h.turnedTo co).setTrace t t') hw values hc).attempt
      (fun _ _ _ _ h => handBack_alongside h _ _ co (.ok ()))
      (fun e _ _ h => handBack_alongside h _ _ co (.error e)) (handBack_passes _ _ co)
  · have hne : (b.heap.coroutine co).status ≠ .suspended := hco ▸ hc
    rw [resume_refused _ w values hc, resume_refused _ w values hne, hco]
    exact .error ⟨nofun, h⟩

/-- The function that resumes. -/
theorem resumeNative_alongside (h : Deeper g a b) (hw : g.base ≤ w.base) :
    Alongside g (Coroutines.resume P w a) (Coroutines.resume P w b) := by
  have hclosed := Deeper.closed g
  have hshares : Shares (Deeper g) w w := Deeper.shares hw
  unfold Coroutines.resume
  refine h.seq (Args.checkCoroutine_inStep hclosed hshares 1 "resume") fun co a b h => ?_
  refine h.seq (valuesFrom_inStep hclosed hshares 1) fun values a b h => ?_
  refine (resume_alongside hP h (w := w.child w.top) (Nat.le_add_right_of_le hw) co values).attempt
    (fun _ _ a b hend => ?_) (fun e a b hend => ?_) (.of_throw rfl rfl)
  · exact hend.2.ends (prependResult_answers hclosed (Deeper.hears g) (.bool true)).inStep
  · cases e with
    | fault f =>
      dsimp only
      split
      · exact hend.2.ends (giveAll_inStep hclosed _)
      · exact .error hend.2
    | suspend | overflow | exhausted => exact .error hend.2

/-- A wrapped coroutine. -/
theorem callWrapped_alongside (co : CoId) (h : Deeper g a b) (hw : g.base ≤ w.base) :
    Alongside g (Coroutines.callWrapped P co w a) (Coroutines.callWrapped P co w b) := by
  unfold Coroutines.callWrapped
  refine h.seq (valuesFrom_inStep (Deeper.closed g) (Deeper.shares hw) 0) fun values a b h => ?_
  exact ((resume_alongside hP h (w := w.child w.top) (Nat.le_add_right_of_le hw) co values).mono
    (fun _ h => h) (fun _ _ _ h => h.2) fun _ _ _ _ h => h).bind fun _ _ _ _ hend => .ok hend.2

/-- The function that gives the text of a value. -/
theorem tostring_alongside (h : Deeper g a b) (hw : g.base ≤ w.base) :
    Alongside g (Base.tostring P w a) (Base.tostring P w b) := by
  have hclosed := Deeper.closed g
  unfold Base.tostring
  refine h.seq (Args.checkAny_inStep hclosed (Deeper.shares hw) 1 "tostring") fun x a b h => ?_
  have htext := display_alongside hP h (w := w.child 1) (Nat.le_add_right_of_le hw) x
  refine htext.bind fun text _ a b htext => ?_
  obtain ⟨rfl, h⟩ := htext
  exact h.ends (give_inStep hclosed _)

/-- The function that prints values. -/
theorem print_alongside (h : Deeper g a b) (hw : g.base ≤ w.base) :
    Alongside g (Base.print P w a) (Base.print P w b) := by
  have hclosed := Deeper.closed g
  unfold Base.print
  refine h.seq (valuesFrom_inStep hclosed (Deeper.shares hw) 0) fun values a b h => ?_
  have hline := line_alongside hP h (w := w.child values.length) (Nat.le_add_right_of_le hw) values
  refine hline.bind fun texts _ a b htexts => ?_
  obtain ⟨rfl, h⟩ := htexts
  exact h.ends ((emit_inStep hclosed _).seq fun _ => giveAll_inStep hclosed [])

omit hP in
/-- The function that yields. -/
theorem yield_alongside (h : Deeper g a b) (hw : g.base ≤ w.base) :
    Alongside g (Coroutines.yield w a) (Coroutines.yield w b) := by
  unfold Coroutines.yield
  refine h.seq (valuesFrom_inStep (Deeper.closed g) (Deeper.shares hw) 0) fun values a b h => ?_
  obtain ⟨e, ha, hb⟩ := h.yieldValues_ends values
  rw [ha, hb]
  exact .error h

/-- **Native functions.** A library function that has the arguments that its arity promises. -/
theorem runBuiltin_alongside (c : Builtin) (h : Deeper g a b) (hw : g.base ≤ w.base)
    (hprovides : ∀ i, c.arity.Provides i → i < w.top) :
    Alongside g (runBuiltin P c w a) (runBuiltin P c w b) := by
  have hclosed := Deeper.closed g
  have hshares : Shares (Deeper g) w w := Deeper.shares hw
  by_cases hinert : c.isInert
  · exact h.ends (runBuiltin_inert_answers (Deeper.escorts g) hclosed _ _ hshares hinert
      fun i hi a b hab => hshares.slot hab i (hprovides i hi)).inStep
  cases c with
  | tostring => exact tostring_alongside hP h hw
  | print => exact print_alongside hP h hw
  | resume => exact resumeNative_alongside hP h hw
  | yield => exact yield_alongside h hw
  | _ => exact (hinert rfl).elim

/-! ## Functions -/

/-- **Functions.** A function that has the arguments that its arity promises. -/
theorem runFunction_alongside (fuel : Nat) (f : FnId) (h : Deeper g a b) (hw : g.base ≤ w.base)
    (hprovides : ∀ i, (a.heap.function f).arity.Provides i → i < w.top) :
    Alongside g (runFunction fuel P f w a) (runFunction fuel P f w b) := by
  unfold runFunction
  rw [functionAt_bind, functionAt_bind, ← h.function_eq f]
  generalize a.heap.function f = c at hprovides
  cases c with
  | closure p cells =>
    exact enterBody_alongside h hw fun _ _ h => Interpreter.run_framed hP f p fuel h
  | builtin c => exact runBuiltin_alongside hP c h hw hprovides
  | protectedCall p => exact protectedCall_alongside hP f p h hw
  | wrapped co => exact callWrapped_alongside hP co h hw
  | routine r => exact enterBody_alongside h hw fun _ _ h => Routine.run_framed hP r fuel h
  | host e => exact e.elim

/-- A function that a suspension left. -/
theorem reenterFunction_alongside (fuel : Nat) (link : Link) (h : Deeper g a b)
    (hw : g.base ≤ w.base) (inner : List Link) (values : List Val) :
    Alongside g (reenterFunction fuel P link inner values w a)
      (reenterFunction fuel P link inner values w b) := by
  obtain ⟨f, index, saved⟩ := link
  unfold reenterFunction
  dsimp only
  rw [functionAt_bind, functionAt_bind, ← h.function_eq f]
  cases a.heap.function f with
  | closure p cells =>
    exact reenterBody_alongside hP h hw (fun _ _ h => Interpreter.run_framed hP f p fuel h) p.name
      index saved inner values
  | protectedCall p => exact resumeProtected_alongside hP f p h hw index saved inner values
  | routine r =>
    exact reenterBody_alongside hP h hw (fun _ _ h => Routine.run_framed hP r fuel h) r.name index
      saved inner values
  | builtin | wrapped => exact .error h
  | host e => exact e.elim

end Natives

/-! ## Calls -/

/-- Two runs that may be given up at stack overflows. -/
abbrev HaltsAlongside (g : Gap) (r r' : EStateM.Result Unwind (Machine Empty PUnit) Unit) : Prop :=
  Endures Unwind.Halts (fun _ => Deeper g) (fun _ _ => Deeper g) r r'

/-- What is not given up is not given up at stack overflows either. -/
theorem Endures.halts {σ τ α β : Type} {E : Unwind → σ → τ → Prop} {Q : α → β → σ → τ → Prop}
    {r : EStateM.Result Unwind σ α} {r' : EStateM.Result Unwind τ β}
    (h : Endures (· = .overflow) E Q r r') : Endures Unwind.Halts E Q r r' :=
  h.mono (fun e he => by rw [he]; rfl) (fun _ _ _ h => h) fun _ _ _ _ h => h

/-- What is counted in and out as a call. The deeper machine reaches the limit first. -/
theorem counted_endures {R : Machine Empty PUnit → Prop} (hR : ∀ m, R m → R (leave m))
    {x y : M Empty PUnit Unit} (h : Deeper g a b)
    (hxy : Deeper g.entered (entered a) (entered b) →
      Endures (· = .overflow) (fun _ => Deeper g.entered)
        (fun _ _ a b => Deeper g.entered a b ∧ R a) (x (entered a)) (y (entered b))) :
    Endures Unwind.Halts (fun _ => Deeper g) (fun _ _ a b => Deeper g a b ∧ R a)
      ((do enter; ensuring x leave) a) ((do enter; ensuring y leave) b) := by
  rw [Regime.counted_eq, Regime.counted_eq, ← h.world.limits.depth, h.left, h.right]
  by_cases hroom : a.world.config.maxCallDepth ≤ g.right
  · rw [if_pos hroom]
    exact .stopped (show Unwind.Halts (.fault (.stackOverflow g.right)) from rfl) b
  · rw [if_neg hroom, if_neg fun hleft => hroom (Nat.le_trans hleft g.le)]
    have hends := (hxy h.entered).halts
    unfold ensuring
    obtain ⟨e, t, ht, he⟩ | hends := hends
    · rw [ht]
      exact .stopped he t.leave
    · cases hx : x (entered a) <;> cases hy : y (entered b) <;> rw [hx, hy] at hends
      · exact .ok ⟨hends.1.leave, hR _ hends.2⟩
      · exact hends.elim
      · exact hends.elim
      · exact .inr ⟨hends.1, hends.2.leave⟩

theorem counted_alongside {x y : M Empty PUnit Unit} (h : Deeper g a b)
    (hxy : Deeper g.entered (entered a) (entered b) →
      Alongside g.entered (x (entered a)) (y (entered b))) :
    HaltsAlongside g ((do enter; ensuring x leave) a) ((do enter; ensuring y leave) b) :=
  (counted_endures (R := fun _ => True) (fun _ h => h) h fun h =>
    (hxy h).mono (fun _ h => h) (fun _ _ _ h => h) fun _ _ _ _ h => ⟨h, trivial⟩).mono
    (fun _ h => h) (fun _ _ _ h => h) fun _ _ _ _ h => h.1

/-- What is counted in and out on the right. -/
theorem Endures.countedRight {σ α : Type} {E E' : Unwind → σ → Machine Empty PUnit → Prop}
    {Q Q' : α → Unit → σ → Machine Empty PUnit → Prop} {r : EStateM.Result Unwind σ α}
    {y : M Empty PUnit Unit} {b : Machine Empty PUnit}
    (h : Endures (· = .overflow) E' Q' r (y (entered b)))
    (hE : ∀ e a b, E' e a b → E e a (leave b)) (hQ : ∀ u w a b, Q' u w a b → Q u w a (leave b)) :
    Endures Unwind.Halts E Q r ((do enter; ensuring y leave) b) := by
  rw [Regime.counted_eq]
  by_cases hroom : b.world.config.maxCallDepth ≤ b.thread.depth
  · rw [if_pos hroom]
    exact .stopped (show Unwind.Halts (.fault (.stackOverflow _)) from rfl) b
  · rw [if_neg hroom]
    unfold ensuring
    obtain ⟨e, t, ht, he⟩ | h := h.halts
    · rw [ht]
      exact .stopped he t.leave
    · cases r <;> cases hy : y (entered b) <;> rw [hy] at h
      · exact .ok (hQ _ _ _ _ h)
      · exact h.elim
      · exact h.elim
      · exact .inr ⟨h.1, hE _ _ _ h.2⟩

section Engine

variable {P : Perform Empty PUnit} (hP : Sustained P) (fuel : Nat)

include hP

/-- **Calls.** A call of one value in one window. -/
theorem invoke_alongside (target : Val) (h : Deeper g a b) (hw : g.base ≤ w.base) :
    HaltsAlongside g (invoke (runner fuel P) w target a) (invoke (runner fuel P) w target b) := by
  obtain ⟨base, n⟩ := w
  unfold invoke
  refine .steps rfl rfl ?_
  rw [← h.world.limits.chain]
  refine h.afterWindows (n := n) hw (resolve_paired (o := Gap.origin base a b) target _)
    fun found found' a' b' hfound => ?_
  obtain ⟨f, _⟩ := found
  obtain ⟨_, _⟩ := found'
  obtain ⟨rfl, k, rfl, rfl, hwindows⟩ := hfound
  dsimp only
  rw [functionAt_bind, functionAt_bind, ← (hwindows.kin.functions f).arity_eq]
  -- shaping leaves the heap alone, so the function still has the arity it is shaped to
  have hshape := shape_paired (o := Gap.origin base a b) (a'.heap.function f).arity a' b' hwindows
  obtain ⟨j, s, x, ha⟩ := shape_ok (a'.heap.function f).arity ⟨base, k⟩ a'
  obtain ⟨j', s', x', hb⟩ := shape_ok (a'.heap.function f).arity ⟨base, k⟩ b'
  change SameEnd _ _ (shape _ ⟨base, k⟩ a') (shape _ ⟨base, k⟩ b') at hshape
  rw [ha, hb] at hshape
  obtain ⟨j, hargs, hargs', hprovides, hwindows⟩ := hshape
  cases hargs
  cases hargs'
  obtain ⟨t, ht⟩ := record_ok (a'.restack s x) fun _ =>
    .invoke (a'.heap.function f).name j a'.thread.depth
  obtain ⟨t', ht'⟩ := record_ok (b'.restack s' x') fun _ =>
    .invoke (b'.heap.function f).name j b'.thread.depth
  refine .steps ha hb (.steps rfl rfl (.steps ht ht' ?_))
  exact counted_alongside ((h.go hwindows.toParted).setTrace t t') fun h =>
    runFunction_alongside hP fuel f h hw hprovides

/-- Pending tail calls. -/
theorem drain_alongside (l : Nat) (h : Deeper g a b) (hw : g.base ≤ w.base) :
    HaltsAlongside g (drain (runner fuel P) w l a) (drain (runner fuel P) w l b) := by
  induction l generalizing a b w with
  | zero => exact .error h
  | succ l ih =>
    have hears := Deeper.hears g
    unfold drain
    refine h.seq (takeTailCall_inStep (Deeper.closed g) hears) fun target? a b h => ?_
    cases target? with
    | none => exact .ok h
    | some target =>
      refine h.after (hear_inStep hears) fun m m' a b hm => ?_
      obtain ⟨hresults, h⟩ := hm
      rw [← hresults]
      refine h.load hw m.thread.results.values fun a b h => ?_
      obtain ⟨t, ht⟩ := record_ok a fun _ =>
        .tailCall target.kind m.thread.results.values.length
      obtain ⟨t', ht'⟩ := record_ok b fun _ =>
        .tailCall target.kind m.thread.results.values.length
      refine .steps ht ht' ?_
      let args : View := ⟨w.base, m.thread.results.values.length⟩
      exact (invoke_alongside hP (w := args) fuel target (h.setTrace t t') hw).bind
        fun _ _ a b h => ih (w := args) h hw

/-- A link that is re-entered. -/
theorem reenter_alongside (link : Link) (h : Deeper g a b) (hw : g.base ≤ w.base)
    (inner : List Link) (values : List Val) :
    HaltsAlongside g (reenter (runner fuel P) link inner values w a)
      (reenter (runner fuel P) link inner values w b) := by
  obtain ⟨t, ht⟩ := record_ok a fun _ =>
    .replay (a.heap.function link.function).name link.index inner.length
  obtain ⟨t', ht'⟩ := record_ok b fun _ =>
    .replay (b.heap.function link.function).name link.index inner.length
  unfold reenter
  refine .steps rfl rfl (.steps ht ht' ?_)
  exact counted_alongside (h.setTrace t t') fun h =>
    reenterFunction_alongside hP fuel link h hw inner values

/-- A request that is carried out. -/
theorem step_alongside (request : Request) (h : Deeper g a b) (hw : g.base ≤ request.window.base) :
    HaltsAlongside g (step (runner fuel P) fuel request a)
      (step (runner fuel P) fuel request b) := by
  cases request with
  | call w target =>
    exact (invoke_alongside hP fuel target h hw).bind
      fun _ _ _ _ h => drain_alongside hP fuel fuel h hw
  | replay links values w =>
    cases links with
    | nil => exact h.ends (giveAll_inStep (Deeper.closed g) values)
    | cons link inner =>
      exact (reenter_alongside hP fuel link h hw inner values).bind
        fun _ _ _ _ h => drain_alongside hP fuel fuel h hw

end Engine

/-- **Requests.** Requests on machines of which one is deeper are carried out alike, with any fuel,
unless the deeper run is given up at a stack overflow. -/
theorem sustained (fuel : Nat) : Sustained (roomy fuel) := by
  induction fuel with
  | zero => exact fun _ h _ => .error h
  | succ fuel ih => exact fun request h hw => (step_alongside ih fuel request h hw).halting

end ScriptCore
