import ScriptCore.Proofs.KindredNatives

/-!
# Resumes of kindred machines

Kindred machines have coroutines in the same states, so a resume runs a segment on both: a fresh one
calls its body on what was loaded, a suspended one replays its chain, which has more links on the
right. However the segment ends, both machines turn back, and the chains that are left fit together
again (`resume_abides`). With that every native function abides (`runBuiltin_abides`).
-/

namespace ScriptCore

open Machine

variable {ds : Depths} {heard : Prop} {a b : Machine Empty PUnit} {w w' : View} {side : Side}

/-! ## Coroutines of kindred machines -/

namespace Machine

/-- A machine with other coroutines, one of which may be running. -/
def recast (m : Machine Empty PUnit) (cs : Array Coroutine) (current : Option CoId)
    (boundaries : Nat) : Machine Empty PUnit :=
  { m with
    heap := { m.heap with coroutines := cs }
    thread := { m.thread with current := current, boundaries := boundaries } }

/-- Coroutines of two machines in the same states. -/
structure Cast (a b : Machine Empty PUnit) (cs cs' : Array Coroutine) : Prop where
  size : cs.size = cs'.size
  akin : ∀ co : CoId, Akin a b (cs.getD co.index .dead) (cs'.getD co.index .dead)

theorem Cast.turn {cs cs' : Array Coroutine} (h : Cast a b cs cs') (target : Option CoId)
    {c d : Coroutine} (hcd : Akin a b c d) :
    Cast a b (Machine.turn cs target c) (Machine.turn cs' target d) where
  size := by rw [size_turn, size_turn, h.size]
  akin co := by
    rw [getD_turn, getD_turn, h.size]
    split
    · exact hcd
    · exact h.akin co

end Machine

namespace Kindred

theorem cast (h : Kindred ds heard a b) : Cast a b a.heap.coroutines b.heap.coroutines :=
  ⟨h.coroutineCount, h.coroutines⟩

theorem recast (h : Kindred ds heard a b) {cs cs' : Array Coroutine} (hcast : Cast a b cs cs')
    (current : Option CoId) (boundaries : Nat) :
    Kindred ds heard (a.recast cs current boundaries) (b.recast cs' current boundaries) :=
  { h with
    boundaries := rfl
    current := rfl
    coroutineCount := hcast.size
    coroutines := fun co => (hcast.akin co).mono (fun _ _ => .same _) fun _ _ => .same _ }

theorem turnedTo (h : Kindred ds heard a b) (co : CoId) :
    Kindred ds heard (a.turnedTo co) (b.turnedTo co) := by
  have hrunning := h.cast.turn (some co) (c := .running) (.still nofun)
  have hnormal := hrunning.turn b.thread.current (c := .normal) (.still nofun)
  show Kindred ds heard (a.recast (turn _ a.thread.current _) (some co) 0) _
  rw [h.current]
  exact h.recast hnormal (some co) 0

theorem turnedBack (h : Kindred ds heard a b) (outer : Option CoId) (boundaries : Nat) (co : CoId)
    {c d : Coroutine} (hcd : Akin a b c d) :
    Kindred ds heard (a.turnedBack outer boundaries co c) (b.turnedBack outer boundaries co d) :=
  h.recast ((h.cast.turn outer (c := .running) (.still nofun)).turn (some co) hcd) outer boundaries

theorem withCoroutine (h : Kindred ds heard a b) (body : Val) :
    Kindred ds heard (a.withCoroutine body) (b.withCoroutine body) :=
  { h with
    coroutineCount := by
      simp only [Machine.withCoroutine, Array.size_push]
      rw [h.coroutineCount]
    coroutines := fun co => by
      rw [coroutine_withCoroutine, coroutine_withCoroutine, h.coroutineCount]
      split
      · exact .still nofun
      · exact (h.coroutines co).mono (fun _ _ => .same _) fun _ _ => .same _ }

end Kindred

/-- Machines that serve the same make one more coroutine. -/
theorem Serving.withCoroutine (h : Serving ds heard w w' a b) (body : Val) :
    Serving ds heard w w' (a.withCoroutine body) (b.withCoroutine body) :=
  { h.toKindred.withCoroutine body with
    top := h.top
    slots := h.slots
    plain := h.plain }

theorem Serving.escorts (ds : Depths) (heard : Prop) (w w' : View) :
    Escorts (Serving ds heard w w') where
  count h := h.coroutineCount
  status h co := (h.coroutines co).status
  current h := h.current
  boundaries h := h.boundaries
  create h body := h.withCoroutine body
  wrap co _ _ h :=
    { Kindred.admits (.wrapped co) _ _ h.toKindred with
      top := h.top
      slots := h.slots
      plain := h.plain }

/-! ## Resumes -/

section Resume

variable {P P' : Perform Empty PUnit} (hm : Mirrors side ds P P')

include hm

/-- What runs in a coroutine that is resumed. -/
theorem segment_abides (h : Kindred ds heard a b) (w w' : View) (values : List Val)
    {c d : Coroutine} (hc : c.status = .suspended) (hcd : Akin a b c d) :
    Abides side (Fallen ds) (fun _ _ => Kindred ds True) (segment P w values c a)
      (segment P' w' values d b) := by
  cases hcd with
  | suspended hthreaded => exact hm.replay values w w' h hthreaded
  | still hstill =>
    cases c with
    | fresh body =>
      show Abides _ _ _ ((Machine.load w values >>= fun w => P (.call w body)) a)
        ((Machine.load w' values >>= fun w' => P' (.call w' body)) b)
      exact h.load w w' values fun w w' a b h => hm.call body h
    | suspended chain => exact (hstill chain rfl).elim
    | running | normal | dead => cases hc

omit hm in
/-- What is made of the results of a segment. -/
theorem handBack_ok_abides (h : Kindred ds True a b) (outer : Option CoId) (boundaries : Nat)
    (co : CoId) : Abides side (Fallen ds) (fun o o' a b => o = o' ∧ Kindred ds True a b)
      (handBack outer boundaries co (.ok ()) a) (handBack outer boundaries co (.ok ()) b) := by
  obtain ⟨t, ht⟩ := handBack_ok outer boundaries co a
  obtain ⟨t', ht'⟩ := handBack_ok outer boundaries co b
  rw [ht, ht']
  exact .ok ⟨rfl, (h.turnedBack outer boundaries co (c := .dead) (.still (by simp))).setTrace t t'⟩

omit hm in
/-- What is made of the early ending of a segment. -/
theorem handBack_abides {e e' : Unwind} (h : Fallen ds e e' a b) (outer : Option CoId)
    (boundaries : Nat) (co : CoId) :
    Abides side (Fallen ds) (fun o o' a b => o = o' ∧ Kindred ds True a b)
      (handBack outer boundaries co (.error e) a) (handBack outer boundaries co (.error e') b) := by
  have hdead := h.toKindred.turnedBack outer boundaries co (c := .dead) (.still (by simp))
  have hrestates := h.restates
  cases hrestates with
  | suspend values =>
    rename_i s s'
    obtain ⟨t, ht⟩ := handBack_suspend outer boundaries co a s
    obtain ⟨t', ht'⟩ := handBack_suspend outer boundaries co b s'
    rw [ht, ht', ← values]
    have hback := h.toKindred.turnedBack outer boundaries co (.suspended (h.threads s s' rfl rfl))
    exact (hback.setTrace t t').after (giveAll_answers (Kindred.closed ds False) s.values)
      fun _ _ _ _ hgiven => .ok ⟨rfl, hgiven.1.hear hgiven.2.1⟩
  | fault f =>
    obtain ⟨t, ht⟩ := handBack_fault outer boundaries co a f
    obtain ⟨t', ht'⟩ := handBack_fault outer boundaries co b f
    rw [ht, ht']
    exact .error (.ofFault (hdead.setTrace t t') f)
  | append hspells pc =>
    obtain ⟨t, ht⟩ := handBack_fault outer boundaries co a _
    obtain ⟨t', ht'⟩ := handBack_fault outer boundaries co b _
    rw [ht, ht']
    exact .error ⟨hdead.setTrace t t', .append hspells pc, by simp⟩

/-- **Resumes.** A resume of one coroutine with the same values. -/
theorem resume_abides (h : Kindred ds heard a b) (w w' : View) (co : CoId) (values : List Val) :
    Abides side (Fallen ds) (fun o o' a b => o = o' ∧ Kindred ds True a b)
      (resume P w co values a) (resume P' w' co values b) := by
  have hakin := h.coroutines co
  by_cases hc : (a.heap.coroutine co).status = .suspended
  · obtain ⟨t, ht⟩ := resume_eq values hc
    obtain ⟨t', ht'⟩ := resume_eq values (m := b) (hakin.status ▸ hc)
    rw [ht, ht', ← h.current, ← h.boundaries]
    have hturned := (h.turnedTo co).setTrace t t'
    have hends := segment_abides hm hturned w w' values hc
      (hakin.mono (fun _ _ => .same _) fun _ _ => .same _)
    exact hends.attempt (fun _ _ _ _ h => handBack_ok_abides h _ _ co)
      (fun _ _ _ _ _ _ h => handBack_abides h _ _ co) (handBack_passes _ _ co) (handBack_passes _ _ co)
  · have hne : (b.heap.coroutine co).status ≠ .suspended := hakin.status ▸ hc
    rw [resume_refused _ w values hc, resume_refused _ w' values hne, hakin.status]
    exact .error (.ofFault h _)

/-! ## The library -/

/-- The function that resumes. -/
theorem resumeNative_abides (h : Serving ds heard w w' a b) :
    Abides side (Fallen ds) (fun _ _ => Kindred ds True) (Coroutines.resume P w a)
      (Coroutines.resume P' w' b) := by
  have hclosed := Serving.closed ds heard w w'
  have hshares : Shares (Serving ds heard w w') w w' := Serving.shares h.top
  unfold Coroutines.resume
  refine h.seq (Args.checkCoroutine_inStep hclosed hshares 1 "resume") fun co a b h => ?_
  refine h.seq (valuesFrom_inStep hclosed hshares 1) fun values a b h => ?_
  refine (resume_abides hm h.toKindred _ _ co values).attempt (fun _ _ a b hend => ?_)
    (fun e e' a b _ _ h => ?_) (.of_throw rfl rfl) (.of_throw rfl rfl)
  · exact hend.2.answers
      (prependResult_answers (Kindred.closed ds True) (Kindred.hears ds) (.bool true))
  · have hrestates := h.restates
    cases hrestates with
    | fault f =>
      dsimp only
      split
      · exact h.toKindred.answers (giveAll_answers (Kindred.closed ds False) _)
      · exact .error h
    | suspend | append => exact .error h

/-- A wrapped coroutine. -/
theorem callWrapped_abides (co : CoId) (h : Serving ds heard w w' a b) :
    Abides side (Fallen ds) (fun _ _ => Kindred ds True) (Coroutines.callWrapped P co w a)
      (Coroutines.callWrapped P' co w' b) := by
  unfold Coroutines.callWrapped
  refine h.seq (valuesFrom_inStep (Serving.closed ds heard w w') (Serving.shares h.top) 0)
    fun values a b h => ?_
  exact (resume_abides hm h.toKindred _ _ co values).bind fun _ _ _ _ hend => .ok hend.2

/-- **Native functions.** A native function of the same arguments. -/
theorem runBuiltin_abides (c : Builtin) (h : Serving ds heard w w' a b)
    (hprovides : ∀ i, c.arity.Provides i → i < w.top) :
    Abides side (Fallen ds) (fun _ _ => Kindred ds True) (runBuiltin P c w a)
      (runBuiltin P' c w' b) := by
  have hclosed := Serving.closed ds heard w w'
  have hshares : Shares (Serving ds heard w w') w w' := Serving.shares h.top
  by_cases hinert : c.isInert
  · exact h.answers (runBuiltin_inert_answers (Serving.escorts ds heard w w') hclosed P P' hshares
      hinert fun i hi a b hab => hshares.slot hab i (hprovides i hi))
  cases c with
  | tostring =>
    show Abides _ _ _ (Base.tostring _ w a) (Base.tostring _ w' b)
    unfold Base.tostring
    refine h.seq (Args.checkAny_inStep hclosed hshares 1 "tostring") fun x a b h => ?_
    refine (display_abides hm h.toKindred _ _ x).bind fun text _ a b htext => ?_
    obtain ⟨rfl, h⟩ := htext
    exact h.answers (give_answers (Kindred.closed ds False) _)
  | print =>
    show Abides _ _ _ (Base.print _ w a) (Base.print _ w' b)
    unfold Base.print
    refine h.seq (valuesFrom_inStep hclosed hshares 0) fun values a b h => ?_
    refine (line_abides hm h.toKindred _ _ values).bind fun texts _ a b htexts => ?_
    obtain ⟨rfl, h⟩ := htexts
    have hclosed := Kindred.closed ds False
    exact h.answers ((emit_inStep hclosed _).answers fun _ => giveAll_answers hclosed [])
  | resume => exact resumeNative_abides hm h
  | yield =>
    show Abides _ _ _ (Coroutines.yield w a) (Coroutines.yield w' b)
    unfold Coroutines.yield
    refine h.seq (valuesFrom_inStep hclosed hshares 0) fun values a b h => ?_
    rw [yieldValues_eq, yieldValues_eq, ← h.current, ← h.boundaries]
    split
    · exact .error (.ofFault h.toKindred _)
    · split
      · exact .error (.ofFault h.toKindred _)
      · refine .error ⟨h.toKindred.astray, .suspend rfl, fun _ _ hs hs' => ?_⟩
        cases hs
        cases hs'
        exact .nil
  | _ => exact (hinert rfl).elim

end Resume

end ScriptCore
