import ScriptCore.Proofs.Twin

/-!
# A run with pauses and a run without

The left of two runs may be suspended; it is then resumed at another place, again and again, and
the right one runs through. `Follows X κ st r r'` says that the left run, which was last entered
at `st` and has come to `r`, will come to the ending `r'` of the right one.

The budget `κ` says how often the left run is resumed at most. With a limit the right run has
fuel for all of the left one, and only the left one may run out of it; without a limit it is the
other way round (`Budget.Fuels`, `Budget.Levels`).

What encloses two such runs alike makes two such runs again (`Follows.through`).
-/

namespace ScriptCore

/-- The ending of a run that asked for values where it may not be suspended. -/
def Unwind.misplaced : Unwind := .fault (.contract (.host "a question where no yield is possible"))

/-! ## Budgets -/

/-- How often a run is resumed at most; `none` stands for no limit. -/
abbrev Budget := Option Nat

namespace Budget

/-- What is left after one more resume. -/
def next (κ : Budget) : Budget := κ.map Nat.pred

/-- Two loops in progress have fuel `l` and `l'`; the left one starts anew with `a` at every
resume. -/
def Fuels (κ : Budget) (a l l' : Nat) : Prop :=
  match κ with
  | none => l' ≤ l ∧ l' ≤ a
  | some k => l + k * (a + 1) ≤ l'

/-- Two requests have fuel `a` and `b` for each resume of the left one. -/
def Levels (κ : Budget) (a b : Nat) : Prop :=
  match κ with
  | none => b ≤ a
  | some k => a * (k + 1) ≤ b

variable {κ : Budget} {a b l l' : Nat}

theorem Fuels.step (h : κ.Fuels a (l + 1) (l' + 1)) : κ.Fuels a l l' := by
  cases κ with
  | none => exact ⟨Nat.le_of_succ_le_succ h.1, Nat.le_of_succ_le h.2⟩
  | some k =>
    have h : l + 1 + k * (a + 1) ≤ l' + 1 := h
    show l + k * (a + 1) ≤ l'
    omega

theorem Fuels.next (hκ : κ ≠ some 0) (h : κ.Fuels a l l') : κ.next.Fuels a a l' := by
  cases κ with
  | none => exact ⟨h.2, h.2⟩
  | some k =>
    cases k with
    | zero => exact (hκ rfl).elim
    | succ k =>
      have h : l + (k + 1) * (a + 1) ≤ l' := h
      rw [Nat.succ_mul] at h
      show a + k * (a + 1) ≤ l'
      omega

/-- When a loop has no fuel, the left one has none or there is no limit to the resumes. -/
theorem Fuels.spent (h : κ.Fuels a l l') (hl : l = 0 ∨ l' = 0) :
    κ = none ∧ l' = 0 ∨ (∃ k, κ = some k) ∧ l = 0 := by
  cases κ with
  | none =>
    have h : l' ≤ l ∧ l' ≤ a := h
    exact .inl ⟨rfl, by omega⟩
  | some k =>
    have h : l + k * (a + 1) ≤ l' := h
    exact .inr ⟨⟨k, rfl⟩, by omega⟩

theorem Levels.next (h : κ.Levels a b) : κ.next.Levels a b := by
  cases κ with
  | none => exact h
  | some k =>
    have hk : a * (k.pred + 1) ≤ a * (k + 1) :=
      Nat.mul_le_mul_left a (Nat.succ_le_succ (Nat.pred_le k))
    exact Nat.le_trans hk h

theorem Levels.lower (h : κ.Levels (a + 1) (b + 1)) : κ.Levels a b := by
  cases κ with
  | none => exact Nat.le_of_succ_le_succ h
  | some k =>
    have h : (a + 1) * (k + 1) ≤ b + 1 := h
    rw [Nat.succ_mul] at h
    show a * (k + 1) ≤ b
    omega

theorem Levels.fuels (h : κ.Levels (a + 1) (b + 1)) : κ.Fuels a a b := by
  cases κ with
  | none => exact ⟨Nat.le_of_succ_le_succ h, Nat.le_of_succ_le_succ h⟩
  | some k =>
    have h : (a + 1) * (k + 1) ≤ b + 1 := h
    have hcomm : (a + 1) * (k + 1) = k * (a + 1) + (a + 1) := by
      rw [Nat.mul_comm, Nat.succ_mul]
    show a + k * (a + 1) ≤ b
    omega

/-- Without fuel for a request, the left one has none or there is no limit to the resumes. -/
theorem Levels.spent (h : κ.Levels a b) (hl : a = 0 ∨ b = 0) :
    κ = none ∧ b = 0 ∨ (∃ k, κ = some k) ∧ a = 0 := by
  cases κ with
  | none =>
    have h : b ≤ a := h
    exact .inl ⟨rfl, by omega⟩
  | some k =>
    have h : a * (k + 1) ≤ b := h
    refine .inr ⟨⟨k, rfl⟩, hl.elim id fun hb => ?_⟩
    have hzero : a * (k + 1) = 0 := by omega
    exact (Nat.mul_eq_zero.1 hzero).resolve_right (Nat.succ_ne_zero k)

end Budget

/-! ## Following -/

/-- What two runs have to do with each other. The places at which the left one is entered are
`ρ`. -/
structure Setting (ρ σ τ α β : Type) where
  /-- Results and states of two runs that end with results. -/
  ok : ρ → α → β → σ → τ → Prop
  /-- States of two runs that end early. -/
  error : ρ → σ → τ → Prop
  /-- What holds of a suspended run. -/
  left : ρ → Suspension → σ → Prop
  /-- The places at which a suspended run may be resumed. -/
  again : ρ → Suspension → σ → ρ → Prop
  /-- The run that is resumed at a place. -/
  re : List Link → ρ → EStateM.Result Unwind σ α

variable {ρ ρ' σ σ' τ τ' α β γ δ : Type}

/-- The left run, last entered at a place, comes to the ending of the right one. -/
inductive Follows (X : Setting ρ σ τ α β) : Budget → ρ → EStateM.Result Unwind σ α →
    EStateM.Result Unwind τ β → Prop
  | ok {κ : Budget} {st : ρ} {u : α} {v : β} {a : σ} {b : τ} (h : X.ok st u v a b) :
    Follows X κ st (.ok u a) (.ok v b)
  | error {κ : Budget} {st : ρ} {e : Unwind} {a : σ} {b : τ} (he : e.Plain)
    (h : X.error st a b) : Follows X κ st (.error e a) (.error e b)
  /-- The right run may stop early where the left one has no limit. -/
  | spentRight {st : ρ} {r : EStateM.Result Unwind σ α} {b : τ} :
    Follows X none st r (.error .exhausted b)
  /-- The left run may stop early where it has a limit. -/
  | spentLeft {k : Nat} {st : ρ} {a : σ} {r : EStateM.Result Unwind τ β} :
    Follows X (some k) st (.error .exhausted a) r
  | outOfResumes {st : ρ} {s : Suspension} {a : σ} {r : EStateM.Result Unwind τ β}
    (h : X.left st s a) : Follows X (some 0) st (.error (.suspend s) a) r
  | misplaced {κ : Budget} {st : ρ} {r : EStateM.Result Unwind σ α} {b : τ} :
    Follows X κ st r (.error .misplaced b)
  | resumed {κ : Budget} {st : ρ} {s : Suspension} {a : σ} {r : EStateM.Result Unwind τ β}
    (hκ : κ ≠ some 0) (h : X.left st s a)
    (hre : ∀ st', X.again st s a st' → Follows X κ.next st' (X.re s.chain st') r) :
    Follows X κ st (.error (.suspend s) a) r

namespace Follows

variable {X : Setting ρ σ τ α β} {Y : Setting ρ' σ' τ' γ δ} {κ : Budget}

/-- A suspended run follows if it follows however it is resumed. -/
theorem suspended {st : ρ} {s : Suspension} {a : σ} {r : EStateM.Result Unwind τ β}
    (h : X.left st s a) (hre : κ ≠ some 0 → ∀ st', X.again st s a st' →
      Follows X κ.next st' (X.re s.chain st') r) : Follows X κ st (.error (.suspend s) a) r := by
  by_cases hκ : κ = some 0
  · subst hκ
    exact .outOfResumes h
  · exact .resumed hκ h (hre hκ)

/-- Two runs of which one has no fuel. -/
theorem of_spent {st : ρ} {r : EStateM.Result Unwind σ α} {r' : EStateM.Result Unwind τ β}
    {l l' : Nat} (h : κ = none ∧ l' = 0 ∨ (∃ k, κ = some k) ∧ l = 0)
    (hr : l = 0 → ∃ a, r = .error .exhausted a) (hr' : l' = 0 → ∃ b, r' = .error .exhausted b) :
    Follows X κ st r r' := by
  rcases h with ⟨rfl, hl⟩ | ⟨⟨k, rfl⟩, hl⟩
  · obtain ⟨b, rfl⟩ := hr' hl
    exact .spentRight
  · obtain ⟨a, rfl⟩ := hr hl
    exact .spentLeft

/-- What surrounds two runs: `f` and `g` make endings of the whole from endings of the parts. What
surrounds the left run may change from resume to resume (`ι`), and `joins` relates the places of
the part and of the whole. -/
structure Frames (X : Setting ρ σ τ α β) (Y : Setting ρ' σ' τ' γ δ) {ι : Type}
    (f : ι → EStateM.Result Unwind σ α → EStateM.Result Unwind σ' γ)
    (g : EStateM.Result Unwind τ β → EStateM.Result Unwind τ' δ)
    (joins : Budget → ι → ρ → ρ' → Prop) : Prop where
  ok : ∀ {κ i st st' u v a b}, joins κ i st st' → X.ok st u v a b →
    Follows Y κ st' (f i (.ok u a)) (g (.ok v b))
  error : ∀ {κ i st st' e a b}, joins κ i st st' → e.Plain → X.error st a b →
    Follows Y κ st' (f i (.error e a)) (g (.error e b))
  suspend : ∀ {κ i st st' s a}, joins κ i st st' → X.left st s a →
    ∃ s' a', f i (.error (.suspend s) a) = .error (.suspend s') a' ∧ Y.left st' s' a' ∧
      (κ ≠ some 0 → ∀ st'', Y.again st' s' a' st'' → ∃ i' z, X.again st s a z ∧
        joins κ.next i' z st'' ∧ Y.re s'.chain st'' = f i' (X.re s.chain z))
  exhaustedLeft : ∀ i a, ∃ a', f i (.error .exhausted a) = .error .exhausted a'
  exhaustedRight : ∀ b, ∃ b', g (.error .exhausted b) = .error .exhausted b'
  misplaced : ∀ b, ∃ b', g (.error .misplaced b) = .error .misplaced b'

/-- **Following is kept.** What surrounds two runs alike keeps one following the other. -/
theorem through {ι : Type} {f : ι → EStateM.Result Unwind σ α → EStateM.Result Unwind σ' γ}
    {g : EStateM.Result Unwind τ β → EStateM.Result Unwind τ' δ}
    {joins : Budget → ι → ρ → ρ' → Prop} (hfg : Frames X Y f g joins) {st : ρ}
    {r : EStateM.Result Unwind σ α} {r' : EStateM.Result Unwind τ β} (h : Follows X κ st r r')
    {i : ι} {st' : ρ'} (hjoins : joins κ i st st') : Follows Y κ st' (f i r) (g r') := by
  induction h generalizing i st' with
  | ok h => exact hfg.ok hjoins h
  | error he h => exact hfg.error hjoins he h
  | spentRight =>
    obtain ⟨b', hb⟩ := hfg.exhaustedRight _
    rw [hb]
    exact .spentRight
  | spentLeft =>
    obtain ⟨a', ha⟩ := hfg.exhaustedLeft i _
    rw [ha]
    exact .spentLeft
  | outOfResumes h =>
    obtain ⟨s', a', hs, hleft, -⟩ := hfg.suspend hjoins h
    rw [hs]
    exact .outOfResumes hleft
  | misplaced =>
    obtain ⟨b', hb⟩ := hfg.misplaced _
    rw [hb]
    exact .misplaced
  | resumed hκ h hre ih =>
    obtain ⟨s', a', hs, hleft, hagain⟩ := hfg.suspend hjoins h
    rw [hs]
    refine .resumed hκ hleft fun st'' hst'' => ?_
    obtain ⟨i', z, hz, hjoins', heq⟩ := hagain hκ st'' hst''
    rw [heq]
    exact ih z hz hjoins'

/-- Steps that run in step, and then runs of which one follows the other. -/
theorem after {E R : σ → τ → Prop} {x : EStateM Unwind σ γ} {y : EStateM Unwind τ δ}
    {Q : γ → δ → σ → τ → Prop} {f : γ → EStateM Unwind σ α} {g : δ → EStateM Unwind τ β} {st : ρ}
    {a : σ} {b : τ} (h : Paired E R x y Q) (hR : R a b) (hE : ∀ a b, E a b → X.error st a b)
    (hf : ∀ u v a b, Q u v a b → Follows X κ st (f u a) (g v b)) :
    Follows X κ st ((x >>= f) a) ((y >>= g) b) := by
  have h := h a b hR
  cases hx : x a with
  | ok u a' =>
    cases hy : y b with
    | ok v b' =>
      rw [hx, hy] at h
      rw [bind_of_ok hx, bind_of_ok hy]
      exact hf _ _ _ _ h
    | error e b' =>
      rw [hx, hy] at h
      exact h.elim
  | error e a' =>
    cases hy : y b with
    | ok v b' =>
      rw [hx, hy] at h
      exact h.elim
    | error e' b' =>
      rw [hx, hy] at h
      obtain ⟨rfl, he, hab⟩ := h
      rw [bind_of_error hx, bind_of_error hy]
      exact .error he.plain (hE _ _ hab)

/-- Steps with results, and then runs of which one follows the other. -/
theorem steps {x : EStateM Unwind σ γ} {y : EStateM Unwind τ δ} {f : γ → EStateM Unwind σ α}
    {g : δ → EStateM Unwind τ β} {st : ρ} {a a' : σ} {b b' : τ} {u : γ} {v : δ}
    (hx : x a = .ok u a') (hy : y b = .ok v b') (h : Follows X κ st (f u a') (g v b')) :
    Follows X κ st ((x >>= f) a) ((y >>= g) b) := by
  rw [bind_of_ok hx, bind_of_ok hy]
  exact h

/-- Steps that run in step follow each other. -/
theorem of_paired {E R : σ → τ → Prop} {x : EStateM Unwind σ α} {y : EStateM Unwind τ β}
    {Q : α → β → σ → τ → Prop} {st : ρ} {a : σ} {b : τ} (h : Paired E R x y Q) (hR : R a b)
    (hE : ∀ a b, E a b → X.error st a b) (hQ : ∀ u v a b, Q u v a b → X.ok st u v a b) :
    Follows X κ st (x a) (y b) := by
  have hafter : Follows X κ st ((x >>= pure) a) ((y >>= pure) b) :=
    after h hR hE fun u v a b huv => .ok (hQ u v a b huv)
  rw [bind_pure, bind_pure] at hafter
  exact hafter

/-- A run that was not suspended follows in every setting with the same endings. -/
theorem unsuspended {X' : Setting ρ σ τ α β} {st : ρ} {r : EStateM.Result Unwind σ α}
    {r' : EStateM.Result Unwind τ β} (h : Follows X κ st r r')
    (hr : ∀ s a, r ≠ .error (.suspend s) a) (hok : X'.ok = X.ok) (herror : X'.error = X.error) :
    Follows X' κ st r r' := by
  cases h with
  | ok h => exact .ok (hok ▸ h)
  | error he h => exact .error he (herror ▸ h)
  | spentRight => exact .spentRight
  | spentLeft => exact .spentLeft
  | outOfResumes h => exact (hr _ _ rfl).elim
  | misplaced => exact .misplaced
  | resumed hκ h hre => exact (hr _ _ rfl).elim

/-- What surrounds two runs of which the left one is never suspended. -/
theorem map {f : EStateM.Result Unwind σ α → EStateM.Result Unwind σ' γ}
    {g : EStateM.Result Unwind τ β → EStateM.Result Unwind τ' δ} {st : ρ} {st' : ρ'}
    {r : EStateM.Result Unwind σ α} {r' : EStateM.Result Unwind τ β} (h : Follows X κ st r r')
    (hleft : ∀ s a, ¬ X.left st s a)
    (hok : ∀ u v a b, X.ok st u v a b → Follows Y κ st' (f (.ok u a)) (g (.ok v b)))
    (herror : ∀ e a b, e.Plain → X.error st a b →
      Follows Y κ st' (f (.error e a)) (g (.error e b)))
    (hexhausted : ∀ a, ∃ a', f (.error .exhausted a) = .error .exhausted a')
    (hexhausted' : ∀ b, ∃ b', g (.error .exhausted b) = .error .exhausted b')
    (hmisplaced : ∀ b, ∃ b', g (.error .misplaced b) = .error .misplaced b') :
    Follows Y κ st' (f r) (g r') := by
  cases h with
  | ok h => exact hok _ _ _ _ h
  | error he h => exact herror _ _ _ he h
  | spentRight =>
    obtain ⟨b', hb⟩ := hexhausted' _
    rw [hb]
    exact .spentRight
  | spentLeft =>
    obtain ⟨a', ha⟩ := hexhausted _
    rw [ha]
    exact .spentLeft
  | outOfResumes h => exact (hleft _ _ h).elim
  | misplaced =>
    obtain ⟨b', hb⟩ := hmisplaced _
    rw [hb]
    exact .misplaced
  | resumed hκ h hre => exact (hleft _ _ h).elim

/-- Steps of which the left one is never suspended, and then runs of which one follows the
other. -/
theorem andThen {Y : Setting ρ' σ τ γ δ} {x : EStateM Unwind σ α} {y : EStateM Unwind τ β}
    {f : α → EStateM Unwind σ γ} {g : β → EStateM Unwind τ δ} {st : ρ} {st' : ρ'} {a : σ} {b : τ}
    (h : Follows X κ st (x a) (y b)) (hleft : ∀ s a, ¬ X.left st s a)
    (herror : ∀ a b, X.error st a b → Y.error st' a b)
    (hok : ∀ u v a b, X.ok st u v a b → Follows Y κ st' (f u a) (g v b)) :
    Follows Y κ st' ((x >>= f) a) ((y >>= g) b) := by
  have hmap : Follows Y κ st' (EStateM.bind (fun _ => x a) f a) (EStateM.bind (fun _ => y b) g b) :=
    h.map (f := fun r => EStateM.bind (fun _ => r) f a) (g := fun r => EStateM.bind (fun _ => r) g b)
      hleft (fun u v a b huv => hok u v a b huv) (fun e a b he hab => .error he (herror a b hab))
      (fun _ => ⟨_, rfl⟩) (fun _ => ⟨_, rfl⟩) fun _ => ⟨_, rfl⟩
  exact hmap

end Follows

end ScriptCore
