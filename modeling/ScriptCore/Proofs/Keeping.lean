import ScriptCore.Proofs.Regime

/-!
# Regimes are kept

The induction over the engine: bodies with their frames, native functions, protected calls and
resumes, and then calls, tail calls and replays. `Regime.perform_agrees` is the result.
-/

namespace ScriptCore

open Machine

variable {F S : Type}

/-! ## Equations of compound steps -/

/-- Whether a function is a body with a layout. -/
def Callable.HasLayout (c : Callable F) (layout : Layout) : Prop :=
  match c with
  | .closure proto _ => proto.layout = layout
  | .routine r => r.layout = layout
  | _ => False

theorem Callable.Kept.hasLayout {c d : Callable F} {layout : Layout} (h : c.Kept d)
    (hc : c.HasLayout layout) : d.HasLayout layout := by
  cases h <;> exact hc

theorem Callable.HasLayout.leaves {c : Callable F} {layout : Layout} (h : c.HasLayout layout)
    {index : Nat} {saved : Saved} (hindex : index ≠ 0)
    (hslots : saved.slots.length = layout.slots) : c.Leaves index saved := by
  cases c with
  | closure proto cells => obtain rfl := h; exact ⟨hindex, hslots⟩
  | routine r => obtain rfl := h; exact ⟨hindex, hslots⟩
  | builtin | protectedCall | wrapped | host => exact h.elim

/-- A body is an object of the heap. -/
theorem Callable.HasLayout.lt_size {h : Heap F} {f : FnId} {layout : Layout}
    (hc : (h.function f).HasLayout layout) : f.index < h.functions.size := by
  refine Nat.lt_of_not_le fun hf => ?_
  rw [Heap.function, Array.getD_eq_getD_getElem?, Array.getElem?_eq_none hf] at hc
  exact hc

namespace Machine

variable {α β : Type}

theorem attempt_bind (x : M F S α) (k : Except Unwind α → M F S β)
    (m : Machine F S) :
    (attempt x >>= k) m = match x m with
      | .ok a m' => k (.ok a) m'
      | .error e m' => k (.error e) m' := by
  show EStateM.bind (attempt x) k m = _
  unfold EStateM.bind attempt
  cases x m <;> rfl

theorem ensuring_congr {x y : M F S α} {after : Machine F S → Machine F S} {m : Machine F S}
    (h : x m = y m) : ensuring x after m = ensuring y after m := by
  unfold ensuring
  rw [h]

/-- A machine with other results. -/
def withResults (m : Machine F S) (values : List Val) : Machine F S :=
  { m with thread := { m.thread with results := .ofValues values } }

theorem giveAll_eq (values : List Val) (m : Machine F S) :
    giveAll values m = .ok () (m.withResults values) := rfl

/-- The link that a suspended frame leaves. -/
def linkOf (function : FnId) (frame : Frame) (m : Machine F S) : Link :=
  ⟨function, frame.index,
    ⟨frame.view.snapshot m.thread.stack frame.slots, frame.view.top, frame.varargs⟩⟩

/-- Adding a link changes only the trace. -/
theorem suspendWith_ok [HostFunction F] (function : FnId) (index : Nat) (saved : Saved) (s : Suspension)
    (m : Machine F S) : ∃ t, suspendWith function index saved s m =
      .error (.suspend ⟨s.values, ⟨function, index, saved⟩ :: s.chain⟩) { m with trace := t } := by
  obtain ⟨t, ht⟩ := record_ok m fun _ =>
    .suspended (m.heap.function function).name index (s.chain.length + 1)
  exact ⟨t, bind_of_ok ht⟩

theorem suspendFrame_ok [HostFunction F] (function : FnId) (frame : Frame) (s : Suspension) (m : Machine F S) :
    ∃ t, suspendFrame function frame s m =
      .error (.suspend ⟨s.values, linkOf function frame m :: s.chain⟩) { m with trace := t } :=
  suspendWith_ok function frame.index _ s m

/-- A saved frame that is laid out again: its slots are back, and the scratch window is above
them. -/
theorem reopen_ok {α : Type} (layout : Layout) (view : View) (index : Nat) (saved : Saved)
    (m : Machine F S) : ∃ s t,
      (∀ i, s.slot i = (view.restore m.thread.stack saved.slots).slot i) ∧
      Stack.KeptBelow view.base m.thread.stack s ∧
      ∀ k : Frame → View → M F S α,
        (do
          let frame ← reopenFrame layout view index saved
          let scratch ← Body.scratchOf frame
          k frame scratch) m =
        k ⟨⟨view.base, saved.top⟩, index, layout.slots, saved.varargs⟩
          ⟨view.base + layout.slots, 0⟩ (m.restack s t) := by
  refine ⟨_, _, fun i => ?_, ?_, fun k => rfl⟩
  · simp only [View.slot_growTo]
  · refine (View.keptBelow_restore view _ saved.slots).trans
      ((View.keptBelow_growTo view _ saved.top).trans ?_)
    exact (View.keptBelow_growTo ((⟨view.base, saved.top⟩ : View).child layout.slots) _ 0).mono
      (Nat.le_add_right _ _)

/-- A body is not re-entered at its start. -/
theorem reenterBody_zero [HostFunction F] (P : Perform F S) (f : FnId) (name : String)
    (layout : Layout) (body : Body F S Unit) (view : View) (saved : Saved) (inner : List Link)
    (values : List Val) (m : Machine F S) :
    reenterBody P f name layout body view 0 saved inner values m =
      .error (.fault (.contract (.entrySegment name))) m := rfl

theorem reenterBody_eq [HostFunction F] (P : Perform F S) (f : FnId) (name : String)
    (layout : Layout) (body : Body F S Unit) (view : View) {index : Nat} (h : index ≠ 0)
    (saved : Saved) (inner : List Link) (values : List Val) :
    reenterBody P f name layout body view index saved inner values = (do
      let frame ← reopenFrame layout view index saved
      let scratch ← Body.scratchOf frame
      attempt (P (.replay inner values scratch)) >>= continueBody f body frame) := by
  unfold reenterBody
  rw [if_neg h]

/-- A protected call stays what it is. -/
theorem Evolves.protectedCall {base : Nat} {m t : Machine F S} (h : m.Evolves base t) {f : FnId}
    {p : Protection} (hc : m.heap.function f = .protectedCall p) :
    t.heap.function f = .protectedCall p := by
  have hf : f.index < m.heap.functions.size := by
    refine Nat.lt_of_not_le fun hf => ?_
    rw [Heap.function, Array.getD_eq_getD_getElem?, Array.getElem?_eq_none hf] at hc
    cases hc
  have h := h.functions f hf
  rw [hc] at h
  generalize t.heap.function f = d at h ⊢
  cases h
  rfl

theorem callNonresumable_eq (Q : Perform F S) (window : View) (target : Val)
    (name : String) (m : Machine F S) : callNonresumable Q window target name m =
      match Q (.call window target) (bounded m) with
      | .ok () t => .ok () (leaveBoundary t)
      | .error (.suspend _) t => .error (.fault (.yieldAcrossBoundary name)) (leaveBoundary t)
      | .error e t => .error e (leaveBoundary t) := by
  show EStateM.bind (attempt (ensuring (Q (.call window target)) leaveBoundary)) _ (bounded m) = _
  unfold EStateM.bind attempt ensuring
  cases Q (.call window target) (bounded m) with
  | ok a t => rfl
  | error e t => cases e <;> rfl

theorem evolves_leaveBoundary {base : Nat} {m t : Machine F S} (h : (bounded m).Evolves base t) :
    m.Evolves base (leaveBoundary t) :=
  { h with boundaries := by rw [leaveBoundary, h.boundaries]; rfl }

end Machine

namespace Regime

variable [HostBody F S] {W : Watch F S} (G : Regime W) {acts permitted : List Activity}
variable {base : Nat} {P P' Q Q' : Perform F S} {α : Type}

omit [HostBody F S] in
/-- Windows further up are above a base as well. -/
theorem base_mono {base' : Nat} (hb : base ≤ base') {m : Machine F S}
    {r r' : EStateM.Result Unwind (Machine F S) α}
    (h : (G.bounds acts permitted base').Meets m r r') :
    (G.bounds acts permitted base).Meets m r r' := by
  cases r with
  | ok a t => exact ⟨h.1, h.2.1, h.2.2.mono hb⟩
  | error e t =>
    cases e with
    | suspend c => exact ⟨h.1, h.2.1, h.2.2.mono hb⟩
    | fault c => exact ⟨h.1, h.2.1, h.2.2.1, h.2.2.2.mono hb⟩
    | overflow => exact h
    | exhausted => exact h

omit [HostBody F S] in
/-- A step whose ending is looked at. What cannot be looked at goes on as it is. -/
theorem attempt_meets {β : Type} {acts' permitted' : List Activity} {base' : Nat} {x y : M F S β}
    {k k' : Except Unwind β → M F S α} {m : Machine F S} (hb : base' ≤ base)
    (hx : (G.bounds acts permitted base).Meets m (x m) (y m))
    (hok : ∀ a t, G.inv acts t → m.Evolves base t →
      (G.bounds acts' permitted' base').Meets t (k (.ok a) t) (k' (.ok a) t))
    (hfault : ∀ f t, G.raises f → G.inv acts t → m.Evolves base t →
      (G.bounds acts' permitted' base').Meets t (k (.error (.fault f)) t)
        (k' (.error (.fault f)) t))
    (hsuspend : ∀ s t r, G.inv acts t ∧ G.lost permitted s t → m.Evolves base t →
      (G.permits permitted s → r = k' (.error (.suspend s)) t) →
      (G.bounds acts' permitted' base').Meets t (k (.error (.suspend s)) t) r)
    (hk : ∀ e, ¬ e.Regular → k (.error e) = throw e ∧ k' (.error e) = throw e) :
    (G.bounds acts' permitted' base').Meets m ((attempt x >>= k) m) ((attempt y >>= k') m) := by
  rw [attempt_bind, attempt_bind]
  cases hr : x m with
  | ok a t =>
    rw [hr] at hx
    obtain ⟨hy, hinv, hsince⟩ := hx
    rw [hy]
    exact (hok a t hinv hsince).since_left (hsince.mono hb)
  | error e t =>
    rw [hr] at hx
    cases e with
    | suspend s =>
      obtain ⟨hy, hlost, hsince⟩ := hx
      exact (hsuspend s t _ hlost hsince fun hp => by rw [hy hp]).since_left (hsince.mono hb)
    | fault f =>
      obtain ⟨hy, hraises, hinv, hsince⟩ := hx
      rw [hy]
      exact (hfault f t hraises hinv hsince).since_left (hsince.mono hb)
    | overflow =>
      rw [show y m = .error .overflow t from hx]
      dsimp only
      rw [(hk _ id).1, (hk _ id).2]
      rfl
    | exhausted =>
      rw [show y m = .error .exhausted t from hx]
      dsimp only
      rw [(hk _ id).1, (hk _ id).2]
      rfl

/-! ## Frames -/

/-- A suspension leaves a link, on both sides if it counts with the link. -/
theorem suspendWith_meets {f : FnId} {index : Nat} {saved : Saved} {s : Suspension}
    {m m' : Machine F S} {r : EStateM.Result Unwind (Machine F S) Unit}
    (hm : m.Evolves base m') (hc : (m'.heap.function f).Leaves index saved)
    (hlost : G.inv (.call f :: acts) m' ∧ G.lost (.call f :: acts) s m')
    (hr : G.permits (.call f :: acts) s → r = suspendWith f index saved s m') :
    (G.bounds (.call f :: acts) acts base).Meets m (suspendWith f index saved s m') r := by
  obtain ⟨t, ht⟩ := suspendWith_ok f index saved s m'
  rw [ht] at hr ⊢
  refine ⟨fun hp => hr (G.permits_link hp), ?_, hm.trans (Still.ofTrace m' t).evolves⟩
  have hquiet := (Still.ofTrace m' t).toUndisturbed
  exact ⟨G.quiet hlost.1 hquiet, G.lost_quiet (G.link hlost.2 hc) hquiet⟩

theorem suspendFrame_meets {f : FnId} {layout : Layout} {frame : Frame} {s : Suspension}
    {m m' : Machine F S} {r : EStateM.Result Unwind (Machine F S) Unit}
    (hm : m.Evolves base m') (hc : (m.heap.function f).HasLayout layout)
    (hslots : frame.slots = layout.slots) (hindex : frame.index ≠ 0)
    (hlost : G.inv (.call f :: acts) m' ∧ G.lost (.call f :: acts) s m')
    (hr : G.permits (.call f :: acts) s → r = suspendFrame f frame s m') :
    (G.bounds (.call f :: acts) acts base).Meets m (suspendFrame f frame s m') r :=
  G.suspendWith_meets hm
    (((hm.functions f hc.lt_size).hasLayout hc).leaves hindex ((View.length_snapshot ..).trans hslots))
    hlost hr

theorem runBody_meets {f : FnId} {layout : Layout} {body body' : Body F S Unit} {frame : Frame}
    {m : Machine F S} (hbody : Agrees (G.body (.call f :: acts)) body body')
    (hm : G.inv (.call f :: acts) m) (hc : (m.heap.function f).HasLayout layout)
    (hslots : frame.slots = layout.slots) :
    (G.bounds (.call f :: acts) acts frame.view.base).Meets m (runBody f body frame m)
      (runBody f body' frame m) := by
  have h := hbody ⟨frame, m⟩ hm
  unfold runBody
  cases hr : body ⟨frame, m⟩ with
  | ok a t =>
    rw [hr] at h
    obtain ⟨hy, hinv, -, -, -, hsince⟩ := h
    rw [hy]
    exact ⟨rfl, hinv, hsince⟩
  | error e t =>
    rw [hr] at h
    cases e with
    | suspend s =>
      obtain ⟨hy, ⟨hlost, hindex⟩, -, hs, -, hsince⟩ := h
      exact G.suspendFrame_meets hsince hc (hs.trans hslots) hindex hlost fun hp => by rw [hy hp]
    | fault c => rw [h.1]; exact ⟨rfl, h.2⟩
    | overflow => rw [show body' _ = .error .overflow t from h]; rfl
    | exhausted => rw [show body' _ = .error .exhausted t from h]; rfl

theorem enterBody_meets {f : FnId} {layout : Layout} {body body' : Body F S Unit} {args : View}
    {m : Machine F S} (hbody : Agrees (G.body (.call f :: acts)) body body')
    (hm : G.inv (.call f :: acts) m) (hc : (m.heap.function f).HasLayout layout) :
    (G.bounds (.call f :: acts) acts args.base).Meets m (enterBody f layout body args m)
      (enterBody f layout body' args m) := by
  have hopen : Paired (Parted (.self m args.base)) (Windows (.self m args.base) args.top)
      (openFrame layout args) (openFrame layout args) _ :=
    openFrame_paired layout rfl fun _ => False.elim
  refine Bounds.Meets.bind (G.windows hm hopen ?_) fun frame t hframe ht hsince => ?_
  · rintro a b t t' ⟨f, h⟩
    exact h.2.2.2.2.toParted
  · have h := hopen m m (.self m args.base args.top)
    rw [hframe] at h
    obtain ⟨g, -, hs, rfl, h⟩ := h
    exact G.runBody_meets hbody ht ((hsince.functions f hc.lt_size).hasLayout hc) hs

theorem continueBody_meets {f : FnId} {layout : Layout} {body body' : Body F S Unit}
    {frame : Frame} {m : Machine F S} {x y : M F S Unit}
    (hbody : Agrees (G.body (.call f :: acts)) body body')
    (hx : (G.bounds (.call f :: acts) (.call f :: acts) frame.view.base).Meets m (x m) (y m))
    (hc : (m.heap.function f).HasLayout layout) (hslots : frame.slots = layout.slots)
    (hindex : frame.index ≠ 0) :
    (G.bounds (.call f :: acts) acts frame.view.base).Meets m
      ((attempt x >>= continueBody f body frame) m)
      ((attempt y >>= continueBody f body' frame) m) := by
  refine G.attempt_meets (Nat.le_refl _) hx (fun _ t hinv hsince => ?_)
    (fun f t hraises hinv _ => ⟨rfl, hraises, hinv, .refl _ _⟩) (fun s t r hlost hsince hr => ?_)
    fun e he => ?_
  · exact G.runBody_meets hbody hinv ((hsince.functions f hc.lt_size).hasLayout hc) hslots
  · exact G.suspendFrame_meets (.refl _ _) ((hsince.functions f hc.lt_size).hasLayout hc) hslots
      hindex hlost hr
  · cases e <;> first | exact (he trivial).elim | exact ⟨rfl, rfl⟩

theorem reenterBody_meets {f : FnId} {layout : Layout} {body body' : Body F S Unit} {name : String}
    {view : View} {index : Nat} {saved : Saved} {inner : List Link} {values : List Val}
    {m : Machine F S} (hP : G.Serves (.call f :: acts) P P')
    (hbody : Agrees (G.body (.call f :: acts)) body body') (hm : G.inv (.call f :: acts) m)
    (hc : (m.heap.function f).HasLayout layout) :
    (G.bounds (.call f :: acts) acts view.base).Meets m
      (reenterBody P f name layout body view index saved inner values m)
      (reenterBody P' f name layout body' view index saved inner values m) := by
  by_cases h0 : index = 0
  · subst h0
    rw [reenterBody_zero, reenterBody_zero]
    exact ⟨rfl, G.own trivial, hm, .refl _ _⟩
  · rw [reenterBody_eq _ _ _ _ _ _ h0, reenterBody_eq _ _ _ _ _ _ h0]
    obtain ⟨s, t, -, hkept, hk⟩ := reopen_ok (α := Unit) layout view index saved m
    rw [hk, hk]
    have hsince := (undisturbed_restack m s t).evolves hkept
    have hinv := G.quiet hm (undisturbed_restack m s t)
    refine Bounds.Meets.since_left ?_ hsince
    refine G.continueBody_meets hbody ?_ hc rfl h0
    exact G.base_mono (Nat.le_add_right _ _) (hP (.replay inner values _) _ hinv)

/-! ## Windows and non-resumable calls -/

omit [HostBody F S] in
theorem load_agrees [HostFunction F] (window : View) (values : List Val) :
    Agrees (G.bounds acts permitted window.base) (load window values : M F S View)
      (load window values) := by
  intro m hm
  refine G.windows (n := window.top) hm ((load_paired (fun _ _ h => h.toParted) _ _ values)) ?_
  exact fun a b t t' h => h.2.2.toParted

theorem load_bind_meets {f g : View → M F S α} {window : View} {values : List Val}
    {m : Machine F S} (hm : G.inv acts m)
    (h : ∀ t, G.inv acts t → (G.bounds acts permitted window.base).Meets t
      (f ⟨window.base, values.length⟩ t) (g ⟨window.base, values.length⟩ t)) :
    (G.bounds acts permitted window.base).Meets m ((load window values >>= f) m)
      ((load window values >>= g) m) := by
  refine (G.load_agrees window values m hm).bind fun w t hload ht _ => ?_
  obtain ⟨s, hs⟩ := onStack_ok (fun s => window.load s values) m
  rw [load, hs] at hload
  cases hload
  exact h _ ht

theorem callWith_agrees (hP : G.Serves acts P P') (window : View) (target : Val)
    (args : List Val) :
    Agrees (G.bounds acts acts window.base) (callWith P window target args)
      (callWith P' window target args) :=
  fun _ hm => G.load_bind_meets hm fun t ht => hP (.call _ target) t ht

omit [HostBody F S] in
/-- What a non-resumable call suspends with, counts. -/
theorem callNonresumable_agrees (hQ : G.Serves (.boundary :: acts) Q Q') (window : View)
    (target : Val) (name : String) :
    Agrees (G.bounds acts permitted window.base) (callNonresumable Q window target name)
      (callNonresumable Q' window target name) := by
  intro m hm
  rw [callNonresumable_eq, callNonresumable_eq]
  have h := hQ (.call window target) (bounded m) (G.enterBoundary hm)
  cases hr : Q (.call window target) (bounded m) with
  | ok a t =>
    rw [hr] at h
    obtain ⟨hy, hinv, hsince⟩ := h
    rw [hy]
    exact ⟨rfl, G.leaveBoundary hinv, evolves_leaveBoundary hsince⟩
  | error e t =>
    rw [hr] at h
    cases e with
    | suspend s =>
      obtain ⟨hy, ⟨hinv, -⟩, hsince⟩ := h
      rw [hy G.permits_boundary]
      exact ⟨rfl, G.own trivial, G.leaveBoundary hinv, evolves_leaveBoundary hsince⟩
    | fault c =>
      obtain ⟨hy, hraises, hinv, hsince⟩ := h
      rw [hy]
      exact ⟨rfl, hraises, G.leaveBoundary hinv, evolves_leaveBoundary hsince⟩
    | overflow => rw [show Q' _ _ = .error .overflow t from h]; rfl
    | exhausted => rw [show Q' _ _ = .error .exhausted t from h]; rfl

/-! ## Texts of values -/

theorem display_agrees (hQ : G.Serves (.boundary :: acts) Q Q') (scratch : View) (v : Val) :
    Agrees (G.bounds acts permitted scratch.base) (Base.display Q scratch v)
      (Base.display Q' scratch v) := by
  refine (G.still fun m => metamethod_inStep (Abreast.closed m) v _).bind fun h? => ?_
  cases h? with
  | none => exact G.still (V := Eq) fun m => named_inStep (Abreast.closed m) v
  | some handler =>
    intro m hm
    refine G.load_bind_meets hm fun t ht => ?_
    refine Agrees.bind (G.callNonresumable_agrees hQ ⟨scratch.base, _⟩ handler _)
      (fun _ => G.still (V := Eq) fun m => ?_) t ht
    refine (result_inStep (Abreast.hears m) 0).seq fun u => ?_
    split
    · exact .pure rfl
    · exact fail_inStep _ trivial

theorem line_agrees (hQ : G.Serves (.boundary :: acts) Q Q') (scratch : View)
    (values : List Val) :
    Agrees (G.bounds acts permitted scratch.base) (Base.line Q scratch values)
      (Base.line Q' scratch values) := by
  induction values with
  | nil => exact Agrees.pure _
  | cons v values ih =>
    exact (G.display_agrees hQ scratch v).bind fun _ => ih.bind fun _ => Agrees.pure _

/-! ## Protected calls -/

theorem handled_agrees (hQ : G.Serves (.boundary :: acts) Q Q') (window : View)
    (handler v : Val) :
    Agrees (G.bounds acts permitted window.base) (Base.handled Q window handler v)
      (Base.handled Q' window handler v) := by
  intro m hm
  refine G.load_bind_meets hm fun t ht => ?_
  have h : (G.bounds acts permitted window.base).Meets t _ _ :=
    G.callNonresumable_agrees hQ ⟨window.base, [v].length⟩ handler "xpcall handler" t ht
  refine G.attempt_meets (Nat.le_refl _) h (fun _ u hinv _ => ?_)
    (fun f u hraises hinv _ => ?_) (fun s u r hlost _ hr => ⟨hr, hlost, .refl _ _⟩) fun e he => ?_
  · exact G.still (V := Eq) (fun m => result_inStep (Abreast.hears m) 0) u hinv
  · dsimp only
    split
    · exact Agrees.pure _ u hinv
    · exact ⟨rfl, hraises, hinv, .refl _ _⟩
  · cases e <;> first | exact (he trivial).elim | exact ⟨rfl, rfl⟩

theorem settle_meets {f : FnId} {p : Protection} {window : View} {handler : Val} {x y : M F S Unit}
    {m : Machine F S} (hQ : G.Serves (.boundary :: .call f :: acts) Q Q')
    (hx : (G.bounds (.call f :: acts) (.call f :: acts) window.base).Meets m (x m) (y m))
    (hc : m.heap.function f = .protectedCall p) :
    (G.bounds (.call f :: acts) acts window.base).Meets m
      ((attempt x >>= Base.settle Q f p window handler) m)
      ((attempt y >>= Base.settle Q' f p window handler) m) := by
  refine G.attempt_meets (Nat.le_refl _) hx (fun _ t hinv hsince => ?_)
    (fun e t hraises hinv _ => ?_) (fun s t r hlost hsince hr => ?_) fun e he => ?_
  · exact G.still (V := Eq) (fun m =>
      (prependResult_answers (Abreast.closed m) (Abreast.hears m) _).inStep) t hinv
  · show Bounds.Meets _ _ ((if e.isCatchable then _ else _ : M F S Unit) t)
      ((if e.isCatchable then _ else _ : M F S Unit) t)
    split
    · refine (G.still fun m => get_inStep (Abreast.closed m)).bind (fun u => ?_) t hinv
      refine (G.still fun m => record_inStep (Abreast.closed m) _ _).bind fun _ => ?_
      have hgive : ∀ v, Agrees (G.bounds (.call f :: acts) acts window.base)
          (giveAll [.bool false, v] : M F S Unit) (giveAll [.bool false, v]) := fun v =>
        G.still (V := Eq) fun m => giveAll_inStep (Abreast.closed m) _
      cases p with
      | plain => exact hgive _
      | handler => exact (G.handled_agrees hQ window handler _).bind hgive
    · exact ⟨rfl, hraises, hinv, .refl _ _⟩
  · refine G.suspendWith_meets (.refl _ _) ?_ hlost hr
    rw [hsince.protectedCall hc]
    exact ⟨rfl, handler, rfl⟩
  · cases e <;> first | exact (he trivial).elim | exact ⟨rfl, rfl⟩

variable {PW : List Activity → Perform F S}

theorem protectedCall_meets {f : FnId} {p : Protection} {args : View} {m : Machine F S}
    (hP : ∀ acts, G.Serves acts P (PW acts)) (hm : G.inv (.call f :: acts) m)
    (hc : m.heap.function f = .protectedCall p) :
    (G.bounds (.call f :: acts) acts args.base).Meets m (Base.protectedCall P f p args m)
      (Watch.protectedCall PW (.call f :: acts) f p args m) := by
  have hS := fun m => Abreast.shares (F := F) (S := S) m args
  have hcall : ∀ handler first target t, G.inv (.call f :: acts) t → m.Evolves args.base t →
      (G.bounds (.call f :: acts) acts args.base).Meets t
        ((attempt (P (.call (args.child first) target)) >>=
          Base.settle P f p (args.child first) handler) t)
        ((attempt (PW (.call f :: acts) (.call (args.child first) target)) >>=
          Base.settle (PW (.boundary :: .call f :: acts)) f p (args.child first) handler) t) := by
    intro handler first target t ht hsince
    refine G.base_mono (Nat.le_add_right args.base first) ?_
    exact G.settle_meets (hP _) (hP _ (.call _ target) t ht) (hsince.protectedCall hc)
  refine Bounds.Meets.bind (G.still (V := Eq) (fun m => Args.checkAny_inStep (Abreast.closed m)
    (hS m) 1 p.name) m hm) fun target t _ ht hsince => ?_
  cases p with
  | plain => exact hcall _ 1 target t ht hsince
  | handler =>
    refine Bounds.Meets.bind (G.still (V := Eq) (fun m => Args.checkAny_inStep (Abreast.closed m)
      (hS m) 2 _) t ht) fun handler u _ hu hsince' => ?_
    exact hcall _ 2 target u hu (hsince.trans hsince')

theorem resumeProtected_meets {f : FnId} {p : Protection} {view : View} {index : Nat}
    {saved : Saved} {inner : List Link} {values : List Val} {m : Machine F S}
    (hP : ∀ acts, G.Serves acts P (PW acts)) (hm : G.inv (.call f :: acts) m)
    (hc : m.heap.function f = .protectedCall p) :
    (G.bounds (.call f :: acts) acts view.base).Meets m
      (Base.resumeProtected P f p view index saved inner values m)
      (Watch.resumeProtected PW (.call f :: acts) f p view index saved inner values m) := by
  unfold Base.resumeProtected Watch.resumeProtected
  split
  · exact ⟨rfl, G.own trivial, hm, .refl _ _⟩
  · exact G.settle_meets (hP _) (hP _ (.replay inner values view) m hm) hc

end Regime

end ScriptCore
