import ScriptCore.Proofs.ChannelRequests

/-!
# Steps that come to an end

A step `Finishes` if it ends with a result or early in a way that scripts can bring about, with a
fault or a suspension: it neither runs out of fuel nor leaves the range of machine arithmetic. What
is kept all along is that the machine is `AtDepth`: every function of the heap is a closure over one
of the given bodies or comes from the standard library, and the depth is a given one. Native
functions, protected calls and resumes finish at a depth if the requests that they make there do.
-/

namespace ScriptCore

open Machine

section Finishes

variable {σ α β : Type} {G E : σ → Prop} {Q : α → σ → Prop} {R : β → σ → Prop}

/-- An ending with a result and a state of `Q`, or with a fault or a suspension in a state of `E`. -/
def Ended (E : σ → Prop) (Q : α → σ → Prop) : EStateM.Result Unwind σ α → Prop
  | .ok a t => Q a t
  | .error e t => e.Regular ∧ E t

/-- From the states of `G` a step comes to an end, and if it ends early, in a state of `G`. -/
def Finishes (G : σ → Prop) (x : EStateM Unwind σ α) (Q : α → σ → Prop) : Prop :=
  ∀ s, G s → Ended G Q (x s)

/-- A step that comes to an end and keeps `G`. -/
abbrev Stays (G : σ → Prop) (x : EStateM Unwind σ α) : Prop := Finishes G x fun _ => G

namespace Ended

variable {x : EStateM Unwind σ α} {f : α → EStateM Unwind σ β} {s : σ}

theorem bind (hx : Ended E Q (x s)) (hf : ∀ a t, Q a t → Ended E R (f a t)) :
    Ended E R ((x >>= f) s) := by
  cases hxs : x s with
  | ok a t =>
    rw [hxs] at hx
    rw [bind_of_ok hxs]
    exact hf a t hx
  | error e t =>
    rw [hxs] at hx
    rw [bind_of_error hxs]
    exact hx

theorem mono {E' : σ → Prop} {Q' : α → σ → Prop} {r : EStateM.Result Unwind σ α}
    (h : Ended E Q r) (hE : ∀ t, E t → E' t) (hQ : ∀ a t, Q a t → Q' a t) : Ended E' Q' r := by
  cases r with
  | ok a t => exact hQ a t h
  | error e t => exact ⟨h.1, hE t h.2⟩

end Ended

namespace Finishes

variable {x : EStateM Unwind σ α} {f : α → EStateM Unwind σ β}

theorem bind (hx : Finishes G x Q) (hf : ∀ a t, Q a t → Ended G R (f a t)) :
    Finishes G (x >>= f) R := fun s hs => (hx s hs).bind hf

/-- The rule for steps that keep `G`. -/
theorem seq (hx : Stays G x) (hf : ∀ a, Finishes G (f a) R) : Finishes G (x >>= f) R :=
  hx.bind fun a t ht => hf a t ht

theorem of_ok (h : ∀ s, G s → ∃ a t, x s = .ok a t ∧ Q a t) : Finishes G x Q := by
  intro s hs
  obtain ⟨a, t, hx, ht⟩ := h s hs
  rw [hx]
  exact ht

theorem pure {a : α} (h : ∀ s, G s → Q a s) : Finishes G (pure a) Q := h

theorem throw {e : Unwind} (he : e.Regular) : Finishes G (throw e) Q := fun _ hs => ⟨he, hs⟩

theorem ite {p : Prop} [Decidable p] {y : EStateM Unwind σ α} (hx : Finishes G x Q)
    (hy : Finishes G y Q) : Finishes G (if p then x else y) Q := by
  split
  · exact hx
  · exact hy

end Finishes

end Finishes

/-- What is done with the ending of a step that comes to an end. -/
theorem Machine.attempt_ends {F S α β : Type} {E E' : Machine F S → Prop}
    {Q : α → Machine F S → Prop} {R : β → Machine F S → Prop} {x : M F S α}
    {k : Except Unwind α → M F S β} {m : Machine F S} (hx : Ended E Q (x m))
    (hok : ∀ a t, Q a t → Ended E' R (k (.ok a) t))
    (herror : ∀ e t, e.Regular → E t → Ended E' R (k (.error e) t)) :
    Ended E' R ((attempt x >>= k) m) := by
  rw [attempt_bind]
  cases hxm : x m with
  | ok a t =>
    rw [hxm] at hx
    exact hok a t hx
  | error e t =>
    rw [hxm] at hx
    exact herror e t hx.1 hx.2

/-! ## Functions built from given bodies -/

/-- The bodies nested in a body, to any depth, and the body itself. -/
inductive Proto.Nested (p : Proto) : Proto → Prop
  | self : Nested p p
  | child {q r : Proto} (h : Nested p q) (hr : r ∈ q.children) : Nested p r

/-- Closures over given bodies and those nested in them, and the functions of the standard
library. -/
def Callable.BuiltFrom (protos : List Proto) : Callable Empty → Prop
  | .closure p _ => ∃ q ∈ protos, q.Nested p
  | .builtin b => b.isStandard
  | .protectedCall _ | .wrapped _ => True
  | .routine _ | .host _ => False

variable {protos : List Proto}

theorem Callable.Kept.builtFrom {c d : Callable Empty} (h : c.Kept d) (hc : c.BuiltFrom protos) :
    d.BuiltFrom protos := by
  cases h with
  | same => exact hc
  | rebound => exact hc

theorem Callable.BuiltFrom.child {p q : Proto} {cells : Array CellId} (hq : q ∈ p.children)
    (h : (Callable.closure p cells).BuiltFrom protos) (cells' : Array CellId) :
    (Callable.closure q cells').BuiltFrom protos := by
  obtain ⟨r, hr, hp⟩ := h
  exact ⟨r, hr, hp.child hq⟩

namespace Machine

/-- A machine at a depth, whose functions are built from given bodies. -/
structure AtDepth (protos : List Proto) (limit depth : Nat) (m : Machine Empty PUnit) : Prop where
  functions : ∀ f, (m.heap.function f).BuiltFrom protos
  limit : m.world.config.maxCallDepth = limit
  depth : m.thread.depth = depth

/-- No tail call is pending, either. -/
structure AtRest (protos : List Proto) (limit depth : Nat) (m : Machine Empty PUnit) : Prop
    extends AtDepth protos limit depth m where
  settled : m.thread.results.Settled

variable {limit depth : Nat} {m m' : Machine Empty PUnit}

theorem AtDepth.congr (h : m.AtDepth protos limit depth) (hf : m'.heap.functions = m.heap.functions)
    (hconfig : m'.world.config = m.world.config) (hdepth : m'.thread.depth = m.thread.depth) :
    m'.AtDepth protos limit depth where
  functions f := by
    rw [Heap.function, hf]
    exact h.functions f
  limit := hconfig ▸ h.limit
  depth := hdepth ▸ h.depth

/-- Two runs from one machine that leave the stack and the counters alone, and functions of given
bodies. -/
structure Confined (protos : List Proto) (m a b : Machine Empty PUnit) : Prop
    extends Abreast m a b where
  functions : ∀ f, (a.heap.function f).BuiltFrom protos

namespace Confined

theorem closed (protos : List Proto) (m : Machine Empty PUnit) : Closed (Confined protos m) where
  kin h := h.core.toKin
  steady h ha hb hk hr :=
    ⟨(Abreast.closed m).steady h.toAbreast ha hb hk hr, fun f => (ha.kept f).builtFrom (h.functions f)⟩

theorem shares (v : View) : Shares (Confined protos m) v v := ⟨rfl, fun h i _ => h.slot v i⟩

theorem admits {c : Callable Empty} (hc : c.BuiltFrom protos) : Admits (Confined protos m) c c := by
  intro a b h
  refine ⟨Abreast.admits m c a b h.toAbreast, fun f => ?_⟩
  rw [function_pushed]
  split
  · exact hc
  · exact h.functions f

theorem atDepth {t : Machine Empty PUnit} (h : Confined protos m t t)
    (hm : m.AtDepth protos limit depth) : t.AtDepth protos limit depth :=
  ⟨h.functions, h.left.config ▸ hm.limit, h.left.depth ▸ hm.depth⟩

end Confined

theorem AtDepth.confined (h : m.AtDepth protos limit depth) : Confined protos m m m :=
  ⟨⟨.refl m, .refl m, .refl m⟩, h.functions⟩

section Steps

variable {α : Type}

/-- A lawful step that runs in step with itself, from every machine with what holds behind it. -/
theorem finishes_of_paired {x : M Empty PUnit α} {Q : α → Machine Empty PUnit → Prop}
    {W : Machine Empty PUnit → α → α → Machine Empty PUnit → Machine Empty PUnit → Prop}
    (hx : Lawful x) (h : ∀ m, Paired (Confined protos m) (Confined protos m) x x (W m))
    (hQ : ∀ m a t, m.AtDepth protos limit depth → W m a a t t → Q a t) :
    Finishes (AtDepth protos limit depth) x Q := by
  intro m hm
  have hend := h m m m hm.confined
  cases hxm : x m with
  | ok a t =>
    rw [hxm] at hend
    exact hQ m a t hm hend
  | error e t =>
    rw [hxm] at hend
    obtain ⟨f, rfl, -⟩ := hx m e t hxm
    exact ⟨trivial, hend.2.2.atDepth hm⟩

/-- A lawful step that runs in step with itself. -/
theorem finishes_of_inStep {x : M Empty PUnit α} {V : α → α → Prop} (hx : Lawful x)
    (h : ∀ m, InStep (Confined protos m) V x x) : Stays (AtDepth protos limit depth) x :=
  finishes_of_paired hx h fun _ _ _ hm hend => hend.2.atDepth hm

/-- A lawful step that gives results and runs in step with itself. -/
theorem finishes_of_answers {x : M Empty PUnit Unit} (hx : Lawful x)
    (h : ∀ m, Answers (Confined protos m) x x) :
    Finishes (AtDepth protos limit depth) x fun _ => AtRest protos limit depth :=
  finishes_of_paired hx h fun _ _ _ hm hend => ⟨hend.1.atDepth hm, hend.2.2⟩

theorem fail_finishes {G : Machine Empty PUnit → Prop} {Q : α → Machine Empty PUnit → Prop}
    (f : Fault) : Finishes G (fail f : M Empty PUnit α) Q := .throw trivial

theorem onStack_stays (g : Stack → α × Stack) :
    Stays (AtDepth protos limit depth) (onStack g : M Empty PUnit α) := by
  refine .of_ok fun m hm => ?_
  obtain ⟨t, ht⟩ := onStack_ok g m
  exact ⟨_, _, ht, hm.congr rfl rfl rfl⟩

theorem record_stays (e : Unit → TraceEvent) :
    Stays (AtDepth protos limit depth) (record e : M Empty PUnit Unit) := by
  refine .of_ok fun m hm => ?_
  obtain ⟨t, ht⟩ := record_ok m e
  exact ⟨_, _, ht, hm.congr rfl rfl rfl⟩

theorem read_stays (f : Machine Empty PUnit → α) :
    Stays (AtDepth protos limit depth) (do return f (← get)) := fun _ hm => hm

theorem giveAll_rests (values : List Val) : Finishes (AtDepth protos limit depth)
    (giveAll values : M Empty PUnit Unit) fun _ => AtRest protos limit depth :=
  .of_ok fun m hm => ⟨(), _, giveAll_eq values m, hm.congr rfl rfl rfl, rfl⟩

theorem metamethod_stays (v : Val) (e : Event) :
    Stays (AtDepth protos limit depth) (metamethod v e : M Empty PUnit (Option Val)) :=
  finishes_of_inStep (metamethod_lawful v e) fun m => metamethod_inStep (Confined.closed protos m) v e

/-- At rest the results can be read. -/
theorem AtRest.result {E : Machine Empty PUnit → Prop} (h : m.AtRest protos limit depth) (i : Nat) :
    Ended E (fun _ => AtRest protos limit depth) (result i m) := by
  rw [result_ok h.settled i]
  exact h

theorem AtRest.prependResult {E : Machine Empty PUnit → Prop} (h : m.AtRest protos limit depth)
    (v : Val) : Ended E (fun _ => AtRest protos limit depth) (prependResult v m) := by
  rw [prependResult_ok h.settled v]
  exact ⟨h.congr rfl rfl rfl, rfl⟩

end Steps

end Machine

/-! ## What makes requests -/

/-- Requests come to an end at a depth. -/
def EndsAt (protos : List Proto) (limit depth : Nat) (P : Perform Empty PUnit) : Prop :=
  ∀ request, Finishes (AtDepth protos limit depth) (P request) fun _ => AtRest protos limit depth

section Requests

variable {limit depth : Nat} {P : Perform Empty PUnit} (hP : EndsAt protos limit depth P)

include hP

theorem callWith_rests (w : View) (target : Val) (args : List Val) :
    Finishes (AtDepth protos limit depth) (callWith P w target args) fun _ =>
      AtRest protos limit depth :=
  (onStack_stays _).seq fun _ => hP _

theorem callNonresumable_rests (w : View) (target : Val) (name : String) :
    Finishes (AtDepth protos limit depth) (callNonresumable P w target name) fun _ =>
      AtRest protos limit depth := by
  intro m hm
  rw [callNonresumable_eq]
  have hcall := hP (.call w target) (bounded m) (hm.congr rfl rfl rfl)
  cases hr : P (.call w target) (bounded m) with
  | ok u t =>
    rw [hr] at hcall
    exact ⟨hcall.congr rfl rfl rfl, hcall.settled⟩
  | error e t =>
    rw [hr] at hcall
    have ht : (leaveBoundary t).AtDepth protos limit depth := hcall.2.congr rfl rfl rfl
    cases e with
    | suspend s => exact ⟨trivial, ht⟩
    | fault f => exact ⟨trivial, ht⟩
    | overflow | exhausted => exact hcall.1.elim

theorem display_stays (w : View) (v : Val) :
    Stays (AtDepth protos limit depth) (Base.display P w v) := by
  refine (metamethod_stays v _).seq fun h? => ?_
  cases h? with
  | some handler =>
    refine (onStack_stays _).seq fun w => (callNonresumable_rests hP w handler _).bind fun _ t ht =>
      (ht.result 0).bind fun u t ht => ?_
    cases u with
    | str s => exact ht.toAtDepth
    | _ => exact fail_finishes _ t ht.toAtDepth
  | none =>
    exact finishes_of_inStep (named_lawful v) fun m => named_inStep (Confined.closed protos m) v

theorem line_stays (w : View) (values : List Val) :
    Stays (AtDepth protos limit depth) (Base.line P w values) := by
  induction values with
  | nil => exact .pure fun _ ht => ht
  | cons v values ih =>
    exact (display_stays hP w v).seq fun _ => ih.seq fun _ => .pure fun _ ht => ht

theorem handled_stays (w : View) (handler v : Val) :
    Stays (AtDepth protos limit depth) (Base.handled P w handler v) := by
  refine (onStack_stays _).seq fun w m hm => ?_
  refine attempt_ends (callNonresumable_rests hP w handler _ m hm) (fun _ t ht => ?_)
    fun e t he ht => ?_
  · exact (ht.result 0).mono (fun _ h => h) fun _ _ h => h.toAtDepth
  · cases e with
    | fault f =>
      dsimp only
      split
      · exact ht
      · exact ⟨trivial, ht⟩
    | suspend s => exact ⟨trivial, ht⟩
    | overflow | exhausted => exact he.elim

/-- A request under protection, and what is made of its ending. -/
theorem guarded_rests (function : FnId) (p : Protection) (w : View) (handler : Val)
    (request : Request) :
    Finishes (AtDepth protos limit depth) (attempt (P request) >>= Base.settle P function p w handler)
      fun _ => AtRest protos limit depth := by
  intro m hm
  refine attempt_ends (hP request m hm) (fun _ t ht => ht.prependResult _) fun e t he ht => ?_
  cases e with
  | suspend s =>
    obtain ⟨x, hx⟩ := suspendWith_ok function 1 ⟨[], 0, [handler]⟩ s t
    rw [show Base.settle P function p w handler (.error (.suspend s)) t = _ from hx]
    exact ⟨trivial, ht.congr rfl rfl rfl⟩
  | fault f =>
    refine Finishes.ite (Finishes.seq (fun _ hm => hm) fun m => (record_stays _).seq fun _ => ?_)
      (fail_finishes f) t ht
    cases p with
    | plain => exact giveAll_rests _
    | handler => exact (handled_stays hP w handler f.value).seq fun v => giveAll_rests _
  | overflow | exhausted => exact he.elim

theorem protectedCall_rests (function : FnId) (p : Protection) (w : View) :
    Finishes (AtDepth protos limit depth) (Base.protectedCall P function p w) fun _ =>
      AtRest protos limit depth := by
  have hcheck : ∀ n, Stays (AtDepth protos limit depth)
      (Args.checkAny w n p.name : M Empty PUnit Val) := fun n =>
    finishes_of_inStep (checkAny_lawful w n _) fun m =>
      Args.checkAny_inStep (Confined.closed protos m) (Confined.shares w) n _
  refine (hcheck 1).seq fun target => ?_
  cases p with
  | plain => exact guarded_rests hP function .plain _ _ _
  | handler => exact (hcheck 2).seq fun handler => guarded_rests hP function .handler _ _ _

theorem resumeProtected_rests (function : FnId) (p : Protection) (w : View) (index : Nat)
    (saved : Saved) (inner : List Link) (values : List Val) :
    Finishes (AtDepth protos limit depth)
      (Base.resumeProtected P function p w index saved inner values) fun _ =>
        AtRest protos limit depth := by
  have hrest := guarded_rests hP function p w (saved.varargs.headD .nil) (.replay inner values w)
  exact .ite (Finishes.seq (fail_finishes _) fun _ => hrest) hrest

/-! ### Coroutines -/

theorem segment_rests (w : View) (values : List Val) {c : Coroutine} (hc : c.status = .suspended) :
    Finishes (AtDepth protos limit depth) (segment P w values c) fun _ =>
      AtRest protos limit depth := by
  cases c with
  | fresh body => exact callWith_rests hP w body values
  | suspended chain => exact hP _
  | running | normal | dead => cases hc

/-- A resume hands back values. -/
theorem resume_rests (w : View) (co : CoId) (values : List Val) :
    Finishes (AtDepth protos limit depth) (Machine.resume P w co values) fun _ =>
      AtRest protos limit depth := by
  intro m hm
  by_cases hc : (m.heap.coroutine co).status = .suspended
  · obtain ⟨x, hx⟩ := resume_eq values hc
    rw [hx]
    have hturned : Machine.AtDepth protos limit depth { m.turnedTo co with trace := x } :=
      hm.congr rfl rfl rfl
    refine attempt_ends (segment_rests hP w values hc _ hturned) (fun u t ht => ?_)
      fun e t he ht => ?_
    · obtain ⟨y, hy⟩ := handBack_ok m.thread.current m.thread.boundaries co t
      rw [hy]
      exact ⟨ht.congr rfl rfl rfl, ht.settled⟩
    · cases e with
      | suspend s =>
        obtain ⟨y, hy⟩ := handBack_suspend m.thread.current m.thread.boundaries co t s
        rw [hy]
        refine Ended.bind (giveAll_rests s.values _ (ht.congr rfl rfl rfl)) fun _ u hu => ?_
        exact hu
      | fault f =>
        obtain ⟨y, hy⟩ := handBack_fault m.thread.current m.thread.boundaries co t f
        rw [hy]
        exact ⟨trivial, ht.congr rfl rfl rfl⟩
      | overflow | exhausted => exact he.elim
  · rw [resume_refused P w values hc]
    exact ⟨trivial, hm⟩

theorem callWrapped_rests (co : CoId) (w : View) :
    Finishes (AtDepth protos limit depth) (Coroutines.callWrapped P co w) fun _ =>
      AtRest protos limit depth :=
  (read_stays fun m => w.values m.thread.stack m.heap.cells 0 w.top).seq fun values =>
    (resume_rests hP _ co values).bind fun _ _ ht => ht

omit hP in
theorem yieldValues_rests (values : List Val) :
    Finishes (AtDepth protos limit depth) (yieldValues values : M Empty PUnit Unit) fun _ =>
      AtRest protos limit depth := by
  intro m hm
  rw [yieldValues_eq]
  split
  · exact ⟨trivial, hm⟩
  · split <;> exact ⟨trivial, hm⟩

/-- **Native functions come to an end.** -/
theorem runBuiltin_rests {b : Builtin} (hb : b.isStandard) (w : View) :
    Finishes (AtDepth protos limit depth) (runBuiltin P b w) fun _ =>
      AtRest protos limit depth := by
  have hclosed := Confined.closed protos
  have hshares : ∀ m, Shares (Confined protos m) w w := fun m => Confined.shares w
  by_cases hplain : b.isPlain
  · exact finishes_of_answers (runBuiltin_lawful P hplain hb w) fun m =>
      runBuiltin_answers P P (hclosed m) (hshares m) hplain fun i _ a b h => h.slot w i
  · have hfunction : ∀ n name, Stays (AtDepth protos limit depth)
        (Args.checkFunction w n name : M Empty PUnit FnId) := fun n name =>
      finishes_of_inStep (checkFunction_lawful w n name) fun m =>
        Args.checkFunction_inStep (hclosed m) (hshares m) n name
    have hcoroutine : ∀ n name, Stays (AtDepth protos limit depth)
        (Args.checkCoroutine w n name : M Empty PUnit CoId) := fun n name =>
      finishes_of_inStep (checkCoroutine_lawful w n name) fun m =>
        Args.checkCoroutine_inStep (hclosed m) (hshares m) n name
    have hnew : ∀ body, Stays (AtDepth protos limit depth)
        (newCoroutine body : M Empty PUnit CoId) := fun body =>
      .of_ok fun m hm => ⟨_, _, rfl, hm.congr rfl rfl rfl⟩
    have hvalues : ∀ first, Stays (AtDepth protos limit depth)
        (valuesFrom w first : M Empty PUnit (List Val)) := fun first => read_stays _
    cases b with
    | tostring =>
      refine Finishes.seq (finishes_of_inStep (checkAny_lawful w 1 _) fun m =>
        Args.checkAny_inStep (hclosed m) (hshares m) 1 _) fun v => ?_
      exact (display_stays hP _ v).seq fun _ => giveAll_rests _
    | print =>
      refine (hvalues 0).seq fun values => (line_stays hP _ values).seq fun texts => ?_
      refine Finishes.seq (.of_ok fun m hm => ⟨(), _, rfl, ?_⟩) fun _ => giveAll_rests _
      exact hm.congr rfl rfl rfl
    | create => exact (hfunction 1 _).seq fun f => (hnew _).seq fun co => giveAll_rests _
    | resume =>
      refine (hcoroutine 1 _).seq fun co => (hvalues 1).seq fun values m hm => ?_
      refine attempt_ends (resume_rests hP _ co values m hm) (fun o t ht => ht.prependResult _)
        fun e t he ht => ?_
      cases e with
      | fault f => exact Finishes.ite (giveAll_rests _) (fail_finishes f) t ht
      | suspend s => exact ⟨trivial, ht⟩
      | overflow | exhausted => exact he.elim
    | yield => exact (hvalues 0).seq fun values => yieldValues_rests values
    | status => exact (hcoroutine 1 _).seq fun co => (read_stays _).seq fun c => giveAll_rests _
    | running =>
      refine Finishes.seq (fun _ hm => hm) fun m => ?_
      split <;> exact giveAll_rests _
    | isyieldable => exact (read_stays _).seq fun _ => giveAll_rests _
    | wrap =>
      refine (hfunction 1 _).seq fun f => (hnew _).seq fun co => ?_
      refine Finishes.seq (finishes_of_inStep (.of_ok fun m => ⟨_, _, rfl⟩) fun m =>
        newFunctionVal_inStep (hclosed m) (Confined.admits (by trivial))) fun v => giveAll_rests _
    | _ => exact (hplain rfl).elim

end Requests

end ScriptCore
