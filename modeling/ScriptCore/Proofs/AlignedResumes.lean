import ScriptCore.Proofs.AlignedNatives

/-!
# Aligned resumes

Aligned machines have the same coroutines, so a resume runs the same segment on both: a fresh one
calls its body on what was loaded, a suspended one replays its chain. However the segment ends, both
machines turn back alike, and a new chain fits as it does on the left (`resume_concur`). With that
every native function concurs (`runBuiltin_concur`).
-/

namespace ScriptCore

open Machine

variable {v : Overlap} {d n : Nat} {heard : Prop} {a b : Machine Empty PUnit} {w w' : View}

/-! ## Coroutines of aligned machines -/

namespace Aligned

theorem coroutine_eq (h : Aligned v heard a b) (co : CoId) :
    a.heap.coroutine co = b.heap.coroutine co := by
  rw [Heap.coroutine, h.coroutines]
  rfl

theorem withCoroutine (h : Aligned v heard a b) (body : Val) :
    Aligned v heard (a.withCoroutine body) (b.withCoroutine body) :=
  { h with
    coroutines := congrArg (·.push (.fresh body)) h.coroutines
    chains := h.chains.withCoroutine body }

theorem escorts (v : Overlap) (heard : Prop) : Escorts (Aligned v heard) where
  count h := congrArg Array.size h.coroutines
  status h co := congrArg Coroutine.status (h.coroutine_eq co)
  current h := h.current
  boundaries h := h.boundaries
  create h body := h.withCoroutine body
  wrap _ := admits trivial

theorem turnedTo (h : Aligned v heard a b) (co : CoId) :
    Aligned v heard (a.turnedTo co) (b.turnedTo co) :=
  { h with
    boundaries := rfl
    current := rfl
    coroutines := by
      show turn (turn a.heap.coroutines _ _) a.thread.current _ = _
      rw [h.coroutines, h.current]
      rfl
    chains := h.chains.turnedTo co }

theorem returnedTo (h : Aligned v heard a b) (outer : Option CoId) (boundaries : Nat) :
    Aligned v heard (a.returnedTo outer boundaries) (b.returnedTo outer boundaries) :=
  { h with
    boundaries := rfl
    current := rfl
    coroutines := congrArg (turn · outer .running) h.coroutines
    chains := h.chains.returnedTo outer boundaries }

theorem turnedBack (h : Aligned v heard a b) (outer : Option CoId) (boundaries : Nat) (co : CoId)
    {c : Coroutine} (hc : ∀ chain, c = .suspended chain →
      (∀ link ∈ chain, a.Fits link) ∧ chain.length ≤ a.world.config.maxCallDepth) :
    Aligned v heard (a.turnedBack outer boundaries co c) (b.turnedBack outer boundaries co c) :=
  { h with
    boundaries := rfl
    current := rfl
    coroutines := congrArg (fun cs => turn (turn cs outer .running) (some co) c) h.coroutines
    chains := h.chains.turnedBack outer boundaries co hc }

end Aligned

/-! ## Resumes -/

/-- What runs in a coroutine that is resumed. -/
theorem segment_concur {P : Perform Empty PUnit} (hserved : Served P) (h : Aligned v heard a b)
    (hw : v.Based d w w') (values : List Val) {c : Coroutine} (hc : c.status = .suspended)
    (hfits : ∀ chain, c = .suspended chain → ∀ link ∈ chain, a.Fits link) :
    Concur (Astray v) (fun _ _ => Aligned v True) (segment P w values c a)
      (segment P w' values c b) := by
  cases c with
  | fresh body =>
    show Concur _ _ ((Machine.load w values >>= fun w => P (.call w body)) a)
      ((Machine.load w' values >>= fun w' => P (.call w' body)) b)
    refine h.load hw values fun w w' a b _ hw h => ?_
    exact (hserved h (.call hw body)).mono (fun _ _ _ h => h.without) fun _ _ _ _ h => h.without
  | suspended chain => exact hserved h (.replay hw (hfits chain rfl) values)
  | running | normal | dead => cases hc

/-- What is made of the ending of a segment, if a chain that it leaves fits. -/
theorem handBack_concur (h : Aligned v heard a b) (outer : Option CoId) (boundaries : Nat)
    (co : CoId) (ending : Except Unwind Unit) (hheard : ending = .ok () → heard)
    (hfits : ∀ s, ending = .error (.suspend s) → (∀ link ∈ s.chain, a.Fits link) ∧
      s.chain.length ≤ a.world.config.maxCallDepth) :
    Concur (Astray v) (fun o o' a b => o = o' ∧ Aligned v True a b)
      (handBack outer boundaries co ending a) (handBack outer boundaries co ending b) := by
  have hthrow : ∀ e : Unwind, ¬ e.Regular →
      Concur (Astray v) (fun o o' a b => o = o' ∧ Aligned v True a b)
        (handBack outer boundaries co (.error e) a) (handBack outer boundaries co (.error e) b) := by
    intro e he
    obtain ⟨t, ht⟩ := handBack_throw outer boundaries co a he
    obtain ⟨t', ht'⟩ := handBack_throw outer boundaries co b he
    rw [ht, ht']
    exact ⟨rfl, ((h.returnedTo outer boundaries).setTrace t t').astray⟩
  cases ending with
  | ok u =>
    obtain ⟨t, ht⟩ := handBack_ok outer boundaries co a
    obtain ⟨t', ht'⟩ := handBack_ok outer boundaries co b
    rw [ht, ht']
    have hback := h.turnedBack outer boundaries co (c := .dead) fun _ hchain => by cases hchain
    exact ⟨rfl, (hback.setTrace t t').mono fun _ => hheard rfl⟩
  | error e =>
    cases e with
    | suspend s =>
      obtain ⟨t, ht⟩ := handBack_suspend outer boundaries co a s
      obtain ⟨t', ht'⟩ := handBack_suspend outer boundaries co b s
      rw [ht, ht']
      have hback := h.turnedBack outer boundaries co (c := .suspended s.chain) fun chain hchain => by
        cases hchain
        exact hfits s rfl
      exact (hback.setTrace t t').after (giveAll_answers (Aligned.closed v heard) s.values)
        fun _ _ _ _ hgiven => ⟨rfl, hgiven.1.hear hgiven.2.1⟩
    | fault f =>
      obtain ⟨t, ht⟩ := handBack_fault outer boundaries co a f
      obtain ⟨t', ht'⟩ := handBack_fault outer boundaries co b f
      rw [ht, ht']
      have hback := h.turnedBack outer boundaries co (c := .dead) fun _ hchain => by cases hchain
      exact ⟨rfl, (hback.setTrace t t').astray⟩
    | overflow => exact hthrow .overflow id
    | exhausted => exact hthrow .exhausted id

section Resume

variable {fuel : Nat} (hserved : Served (perform fuel))

include hserved

/-- **Resumes.** A resume of one coroutine with the same values. -/
theorem resume_concur (h : Aligned v heard a b) (hw : v.Based d w w') (co : CoId)
    (values : List Val) :
    Concur (Astray v) (fun o o' a b => o = o' ∧ Aligned v True a b)
      (resume (perform fuel) w co values a) (resume (perform fuel) w' co values b) := by
  have hco := h.coroutine_eq co
  by_cases hc : (a.heap.coroutine co).status = .suspended
  · obtain ⟨t, ht⟩ := resume_eq values hc
    obtain ⟨t', ht'⟩ := resume_eq values (m := b) (hco ▸ hc)
    rw [ht, ht', ← h.current, ← h.boundaries, ← hco, attempt_ended, attempt_ended]
    have hturned := (h.turnedTo co).setTrace t t'
    have hfits : ∀ chain, a.heap.coroutine co = .suspended chain → ∀ link ∈ chain,
        (a.turnedTo co).Fits link := fun chain hchain link hlink =>
      h.chains.fits co chain hchain link hlink
    have hends := segment_concur hserved hturned hw values hc hfits
    cases hx : segment (perform fuel) w values (a.heap.coroutine co)
        { a.turnedTo co with trace := t } <;>
      cases hy : segment (perform fuel) w' values (a.heap.coroutine co)
        { b.turnedTo co with trace := t' } <;> rw [hx, hy] at hends
    case ok.error => exact hends.elim
    case error.ok => exact hends.elim
    case ok.ok => exact handBack_concur hends _ _ co (.ok ()) (fun _ => trivial) nofun
    case error.error e a' e' b' =>
      obtain ⟨rfl, hastray⟩ := hends
      refine handBack_concur hastray _ _ co (.error e) nofun fun s he => ?_
      cases he
      -- a chain fits because of what the left run does by itself
      obtain ⟨-, hchain, hlength⟩ := segment_suspends hturned.chains hx
      refine ⟨hchain, ?_⟩
      rw [segment_config hturned.chains hx]
      exact Nat.le_of_add_right_le hlength
  · have hne : (b.heap.coroutine co).status ≠ .suspended := hco ▸ hc
    rw [resume_refused _ w values hc, resume_refused _ w' values hne, hco]
    exact ⟨rfl, h.astray⟩

/-! ## The library -/

/-- The function that resumes. -/
theorem resumeNative_concur (h : Aligned v heard a b) (hw : v.Hands d n w w') :
    Concur (Astray v) (fun _ _ => Aligned v True) (Coroutines.resume (perform fuel) w a)
      (Coroutines.resume (perform fuel) w' b) := by
  have hclosed := Aligned.closed v heard
  have hshares : Shares (Aligned v heard) w w' := Aligned.shares hw
  unfold Coroutines.resume
  refine h.seq (Args.checkCoroutine_inStep hclosed hshares 1 "resume") fun co a b h => ?_
  refine h.seq (valuesFrom_inStep hclosed hshares 1) fun values a b h => ?_
  rw [← hshares.top]
  refine (resume_concur hserved h (hw.child w.top).based co values).attempt (fun _ _ a b hend => ?_)
    fun e a b h => ?_
  · exact hend.2.answers
      (prependResult_answers (Aligned.closed v True) (Aligned.hears v) (.bool true))
  · cases e with
    | fault f =>
      dsimp only
      split
      · exact h.answers (giveAll_answers (Aligned.closed v False) _)
      · exact ⟨rfl, h⟩
    | suspend | overflow | exhausted => exact ⟨rfl, h⟩

/-- A wrapped coroutine. -/
theorem callWrapped_concur (co : CoId) (h : Aligned v heard a b) (hw : v.Hands d n w w') :
    Concur (Astray v) (fun _ _ => Aligned v True) (Coroutines.callWrapped (perform fuel) co w a)
      (Coroutines.callWrapped (perform fuel) co w' b) := by
  have hshares : Shares (Aligned v heard) w w' := Aligned.shares hw
  unfold Coroutines.callWrapped
  refine h.seq (valuesFrom_inStep (Aligned.closed v heard) hshares 0) fun values a b h => ?_
  rw [← hshares.top]
  exact (resume_concur hserved h (hw.child w.top).based co values).bind fun _ _ _ _ hend => hend.2

/-- **Native functions.** A native function of shared arguments. -/
theorem runBuiltin_concur (c : Builtin) (h : Aligned v heard a b) (hw : v.Hands d n w w')
    (hprovides : ∀ i, c.arity.Provides i → i < n) :
    Concur (Astray v) (fun _ _ => Aligned v True) (runBuiltin (perform fuel) c w a)
      (runBuiltin (perform fuel) c w' b) := by
  have hclosed := Aligned.closed v heard
  have hshares : Shares (Aligned v heard) w w' := Aligned.shares hw
  by_cases hinert : c.isInert
  · obtain ⟨rfl, rfl, -⟩ := hw
    exact h.answers (runBuiltin_inert_answers (Aligned.escorts v heard) hclosed _ _ hshares hinert
      fun i hi a b hab => hshares.slot hab i (hprovides i hi))
  cases c with
  | tostring =>
    show Concur _ _ (Base.tostring _ w a) (Base.tostring _ w' b)
    unfold Base.tostring
    refine h.seq (Args.checkAny_inStep hclosed hshares 1 "tostring") fun x a b h => ?_
    refine (display_concur hserved h (hw.child 1).based x).bind fun text _ a b htext => ?_
    obtain ⟨rfl, h⟩ := htext
    exact h.answers (give_answers (Aligned.closed v False) _)
  | print =>
    show Concur _ _ (Base.print _ w a) (Base.print _ w' b)
    unfold Base.print
    refine h.seq (valuesFrom_inStep hclosed hshares 0) fun values a b h => ?_
    refine (line_concur hserved h (hw.child values.length).based values).bind fun texts _ a b htexts => ?_
    obtain ⟨rfl, h⟩ := htexts
    have hclosed := Aligned.closed v False
    exact h.answers ((emit_inStep hclosed _).answers fun _ => giveAll_answers hclosed [])
  | resume => exact resumeNative_concur hserved h hw
  | yield =>
    show Concur _ _ (Coroutines.yield w a) (Coroutines.yield w' b)
    unfold Coroutines.yield
    refine h.seq (valuesFrom_inStep hclosed hshares 0) fun values a b h => ?_
    rw [yieldValues_eq, yieldValues_eq, ← h.current, ← h.boundaries]
    split
    · exact ⟨rfl, h.astray⟩
    · split
      · exact ⟨rfl, h.astray⟩
      · exact ⟨rfl, h.astray⟩
  | _ => exact (hinert rfl).elim

end Resume

end ScriptCore
