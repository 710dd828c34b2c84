import ScriptCore.Proofs.AlignedResumes
import ScriptCore.Proofs.SpelledBodies

/-!
# Natives of kindred machines

Native functions on windows that serve the same. Those that call nothing run in step. The others
pass windows with the same live slots on, so what they ask for is carried out by mirroring requests.
A protected call leaves the same link on both sides, and faults that are told by their place are
never caught. A resume turns both machines to the coroutine and back.
-/

namespace ScriptCore

open Machine

variable {ds : Depths} {heard : Prop} {a b : Machine Empty PUnit} {w w' : View} {side : Side}

/-! ## Attempts -/

/-- What follows an attempt, by the way in which it ended. What was given up stays so. -/
theorem Abides.attempt {E : Unwind → Unwind → Machine Empty PUnit → Machine Empty PUnit → Prop}
    {α β γ δ : Type} {Q : α → β → Machine Empty PUnit → Machine Empty PUnit → Prop}
    {W : γ → δ → Machine Empty PUnit → Machine Empty PUnit → Prop} {x : M Empty PUnit α}
    {y : M Empty PUnit β} {k : Except Unwind α → M Empty PUnit γ}
    {l : Except Unwind β → M Empty PUnit δ} (h : Abides side E Q (x a) (y b))
    (hok : ∀ u u' a b, Q u u' a b → Abides side E W (k (.ok u) a) (l (.ok u') b))
    (herror : ∀ e e' a' b', x a = .error e a' → y b = .error e' b' → E e e' a' b' →
      Abides side E W (k (.error e) a') (l (.error e') b'))
    (hk : Limit.Passes k) (hl : Limit.Passes l) :
    Abides side E W ((attempt x >>= k) a) ((attempt y >>= l) b) := by
  rw [attempt_ended, attempt_ended]
  generalize hx : x a = r, hy : y b = r' at h
  cases h with
  | ok h => exact hok _ _ _ _ h
  | error h => exact herror _ _ _ _ hx hy h
  | spent h =>
    cases h with
    | overflow =>
      rename_i m
      obtain ⟨m', hm'⟩ : ∃ m', l (.error .overflow) m = .error .overflow m' := hl .depth m
      refine .spent ?_
      simp only [ended, hm']
      exact .overflow
    | left =>
      rename_i m
      obtain ⟨m', hm'⟩ : ∃ m', k (.error .exhausted) m = .error .exhausted m' := hk .fuel m
      refine .spent ?_
      simp only [ended, hm']
      exact .left
    | right =>
      rename_i m
      obtain ⟨m', hm'⟩ : ∃ m', l (.error .exhausted) m = .error .exhausted m' := hl .fuel m
      refine .spent ?_
      simp only [ended, hm']
      exact .right

/-! ## Calls that may not yield -/

namespace Kindred

theorem bounded (h : Kindred ds heard a b) : Kindred ds heard (bounded a) (bounded b) :=
  { h with
    boundaries := congrArg (· + 1) h.boundaries
    coroutines := fun co => (h.coroutines co).mono (fun _ _ => .same _) fun _ _ => .same _ }

theorem leaveBoundary (h : Kindred ds heard a b) :
    Kindred ds heard (leaveBoundary a) (leaveBoundary b) :=
  { h with
    boundaries := congrArg (· - 1) h.boundaries
    coroutines := fun co => (h.coroutines co).mono (fun _ _ => .same _) fun _ _ => .same _ }

end Kindred

theorem Serving.bounded (h : Serving ds heard w w' a b) :
    Serving ds heard w w' (bounded a) (bounded b) :=
  { h.toKindred.bounded with
    top := h.top
    slots := h.slots
    plain := h.plain }

section Calls

variable {P P' : Perform Empty PUnit} (hm : Mirrors side ds P P')

include hm

/-- A call that may not yield. -/
theorem callNonresumable_abides (h : Serving ds heard w w' a b) (target : Val) (name : String) :
    Abides side (Fallen ds) (fun _ _ => Kindred ds True) (callNonresumable P w target name a)
      (callNonresumable P' w' target name b) := by
  have hends := hm.call target h.bounded
  rw [callNonresumable_eq, callNonresumable_eq]
  generalize P (.call w target) (Machine.bounded a) = r,
    P' (.call w' target) (Machine.bounded b) = r' at hends
  cases hends with
  | ok h => exact .ok h.leaveBoundary
  | error h =>
    have hkindred := h.toKindred.leaveBoundary
    have hrestates := h.restates
    cases hrestates with
    | suspend values => exact .error (.ofFault hkindred _)
    | fault f => exact .error (.ofFault hkindred f)
    | append hspells pc => exact .error ⟨hkindred, .append hspells pc, nofun⟩
  | spent h =>
    cases h with
    | overflow => exact .spent .overflow
    | left => exact .spent .left
    | right => exact .spent .right

/-- The text of a value. -/
theorem display_abides (h : Kindred ds heard a b) (w w' : View) (x : Val) :
    Abides side (Fallen ds) (fun s t a b => s = t ∧ Kindred ds False a b) (Base.display P w x a)
      (Base.display P' w' x b) := by
  have hclosed := Kindred.closed ds heard
  unfold Base.display
  refine h.seq (metamethod_inStep hclosed x .toString) fun h? a b h => ?_
  cases h? with
  | some handler =>
    refine h.load w w' [x] fun w w' a b h => ?_
    refine (callNonresumable_abides hm h handler "__tostring").bind fun _ _ a b h => ?_
    refine h.seq (result_inStep (Kindred.hears ds) 0) fun text a b h => ?_
    cases text with
    | str s => exact .ok ⟨rfl, h.astray⟩
    | _ => exact .error (.ofFault h _)
  | none => exact h.last (named_inStep hclosed x) False.elim

/-- The texts of values. -/
theorem line_abides (h : Kindred ds heard a b) (w w' : View) (values : List Val) :
    Abides side (Fallen ds) (fun s t a b => s = t ∧ Kindred ds False a b) (Base.line P w values a)
      (Base.line P' w' values b) := by
  induction values generalizing heard a b with
  | nil => exact .ok ⟨rfl, h.astray⟩
  | cons x values ih =>
    unfold Base.line
    refine (display_abides hm h w w' x).bind fun text _ a b htext => ?_
    obtain ⟨rfl, h⟩ := htext
    refine (ih h).bind fun texts _ a b htexts => ?_
    obtain ⟨rfl, h⟩ := htexts
    exact .ok ⟨rfl, h⟩

/-! ## Protected calls -/

/-- The value that a message handler makes of the value of a fault. -/
theorem handled_abides (h : Kindred ds heard a b) (w w' : View) (handler x : Val) :
    Abides side (Fallen ds) (fun s t a b => s = t ∧ Kindred ds False a b)
      (Base.handled P w handler x a) (Base.handled P' w' handler x b) := by
  unfold Base.handled
  refine h.load w w' [x] fun w w' a b h => ?_
  refine (callNonresumable_abides hm h handler "xpcall handler").attempt (fun _ _ a b h => ?_)
    (fun e e' a b _ _ h => ?_) (.of_throw rfl rfl) (.of_throw rfl rfl)
  · exact h.last (result_inStep (Kindred.hears ds) 0) False.elim
  · have hrestates := h.restates
    cases hrestates with
    | fault f =>
      dsimp only
      split
      · exact .ok ⟨rfl, h.toKindred⟩
      · exact .error h
    | suspend | append => exact .error h

/-- What is made of the ending of a protected callee that has failed. -/
theorem settle_abides {function : FnId} {p : Protection} {e e' : Unwind} (h : Fallen ds e e' a b)
    (hleft : e.Regular → a.heap.function function = .protectedCall p)
    (hright : e'.Regular → b.heap.function function = .protectedCall p) (w w' : View)
    (handler : Val) :
    Abides side (Fallen ds) (fun _ _ => Kindred ds True)
      (Base.settle P function p w handler (.error e) a)
      (Base.settle P' function p w' handler (.error e') b) := by
  have hclosed := Kindred.closed ds False
  have hrestates := h.restates
  unfold Base.settle
  cases hrestates with
  | suspend values =>
    rename_i s s'
    obtain ⟨t, ht⟩ := suspendWith_ok function 1 ⟨[], 0, [handler]⟩ s a
    obtain ⟨t', ht'⟩ := suspendWith_ok function 1 ⟨[], 0, [handler]⟩ s' b
    dsimp only
    rw [ht, ht']
    refine .error ⟨h.toKindred.setTrace t t', .suspend values, fun _ _ hs hs' => ?_⟩
    cases hs
    cases hs'
    exact (Threaded.cons (.protection (hleft trivial) (hright trivial) 1 _) (h.threads s s' rfl rfl)).mono
      (fun _ _ => .same _) fun _ _ => .same _
  | fault f =>
    dsimp only
    split
    · refine h.toKindred.after (get_inStep hclosed) fun m m' a b hget => ?_
      refine hget.2.seq (record_inStep hclosed _ _) fun _ a b h => ?_
      cases p with
      | plain => exact h.answers (giveAll_answers hclosed _)
      | handler =>
        refine (handled_abides hm h w w' handler f.value).bind fun x _ a b hx => ?_
        obtain ⟨rfl, h⟩ := hx
        exact h.answers (giveAll_answers hclosed _)
    · exact .error h
  | append => exact .error h

end Calls

/-- Serving machines with a protected call. -/
structure Protecting (ds : Depths) (heard : Prop) (w w' : View) (function : FnId) (p : Protection)
    (a b : Machine Empty PUnit) : Prop extends Serving ds heard w w' a b where
  left : a.heap.function function = .protectedCall p
  right : b.heap.function function = .protectedCall p

theorem Protecting.closed (ds : Depths) (heard : Prop) (w w' : View) (function : FnId) (p : Protection) :
    Closed (Protecting ds heard w w' function p) where
  kin h := h.toKin
  steady h ha hb hk hr :=
    { (Serving.closed ds heard w w').steady h.toServing ha hb hk hr with
      left := Keeps.protectedCall ha.functions h.left
      right := Keeps.protectedCall hb.functions h.right }

section Protected

variable {P P' : Perform Empty PUnit} (hp : Partners side ds P P') {function : FnId} {p : Protection}

include hp

/-- A request under protection, and what is made of its ending. -/
theorem guarded_abides {request request' : Request}
    (hends : Abides side (Fallen ds) (fun _ _ => Kindred ds True) (P request a) (P' request' b))
    (hleft : a.heap.function function = .protectedCall p)
    (hright : b.heap.function function = .protectedCall p) (w w' : View) (handler : Val) :
    Abides side (Fallen ds) (fun _ _ => Kindred ds True)
      ((attempt (P request) >>= Base.settle P function p w handler) a)
      ((attempt (P' request') >>= Base.settle P' function p w' handler) b) := by
  refine hends.attempt (fun _ _ _ _ h => ?_) (fun e e' a' b' ha hb h => ?_)
    (.of_throw rfl rfl) (.of_throw rfl rfl)
  · exact h.answers (prependResult_answers (Kindred.closed ds True) (Kindred.hears ds) (.bool true))
  · have hevolves := hp.left request a a'
    have hevolves' := hp.right request' b b'
    rw [ha] at hevolves
    rw [hb] at hevolves'
    exact settle_abides hp.mirrors h
      (fun he => Keeps.protectedCall (hevolves ⟨he, rfl⟩).functions hleft)
      (fun he => Keeps.protectedCall (hevolves' ⟨he, rfl⟩).functions hright) w w' handler

/-- **Protected calls.** A protected call of the same arguments. -/
theorem protectedCall_abides (h : Serving ds heard w w' a b)
    (hleft : a.heap.function function = .protectedCall p)
    (hright : b.heap.function function = .protectedCall p) :
    Abides side (Fallen ds) (fun _ _ => Kindred ds True) (Base.protectedCall P function p w a)
      (Base.protectedCall P' function p w' b) := by
  have hclosed := Protecting.closed ds heard w w' function p
  have hshares : Shares (Protecting ds heard w w' function p) w w' :=
    ⟨h.top, fun h i hi => h.slots i hi⟩
  have hcheck := fun n => Args.checkAny_inStep hclosed hshares n p.name
  have hcall : ∀ (handler target : Val) (first : Nat) {a b : Machine Empty PUnit},
      Protecting ds heard w w' function p a b → Abides side (Fallen ds) (fun _ _ => Kindred ds True)
        ((attempt (P (.call (w.child first) target)) >>=
          Base.settle P function p (w.child first) handler) a)
        ((attempt (P' (.call (w'.child first) target)) >>=
          Base.settle P' function p (w'.child first) handler) b) := by
    intro handler target first a b h
    exact guarded_abides hp (hp.mirrors.call target (h.toServing.child first)) h.left h.right _ _
      handler
  unfold Base.protectedCall
  refine (hcheck 1).follow ⟨h, hleft, hright⟩ (fun _ _ h => h.toKindred.astray)
    fun target _ a b htarget => ?_
  obtain ⟨rfl, h⟩ := htarget
  cases p with
  | plain => exact hcall .nil target 1 h
  | handler =>
    refine (hcheck 2).follow h (fun _ _ h => h.toKindred.astray) fun handler _ a b hhandler => ?_
    obtain ⟨rfl, h⟩ := hhandler
    exact hcall handler target 2 h

/-- A protected call that goes on behind its callee. -/
theorem resumeProtected_abides (h : Kindred ds heard a b)
    (hleft : a.heap.function function = .protectedCall p)
    (hright : b.heap.function function = .protectedCall p) (w w' : View) (index : Nat)
    (saved : Saved) {inner inner' : List Link} (hinner : Threaded a b inner inner')
    (values : List Val) :
    Abides side (Fallen ds) (fun _ _ => Kindred ds True)
      (Base.resumeProtected P function p w index saved inner values a)
      (Base.resumeProtected P' function p w' index saved inner' values b) := by
  unfold Base.resumeProtected
  split
  · exact .error (.ofFault h _)
  · exact guarded_abides hp (hp.mirrors.replay values w w' h hinner) hleft hright w w' _

end Protected

end ScriptCore
