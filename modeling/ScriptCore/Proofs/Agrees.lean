import ScriptCore.Proofs.Windows

/-!
# Runs that agree

`Agrees B x y`: where the invariant of the bounds `B` holds, the step `x` keeps to the bounds and
`y` ends in the same way. Unlike steps that run in step, these may be left by a suspension.

`Machine.Evolves` is what every request keeps to: the counters are restored, nothing below its
window is changed, and every function keeps its body.
-/

namespace ScriptCore

open Machine

/-- What is known of a step: its invariant, what a suspension that leaves it carries, which
suspensions count, and how later states relate to earlier ones. -/
structure Bounds (σ : Type) where
  inv : σ → Prop
  lost : Suspension → σ → Prop
  permits : Suspension → Prop
  since : σ → σ → Prop
  failed : Fault → σ → σ → Prop
  refl : ∀ s, since s s
  trans : ∀ {s t u}, since s t → since t u → since s u
  failed_trans : ∀ {f s t u}, since s t → failed f t u → failed f s u

section Agrees

variable {σ α β : Type} {B : Bounds σ}

/-- An ending from `s` that keeps to the bounds and is also that of another run, unless it is a
suspension that does not count. -/
def Bounds.Meets (B : Bounds σ) (s : σ) :
    EStateM.Result Unwind σ α → EStateM.Result Unwind σ α → Prop
  | .ok a t, r => r = .ok a t ∧ B.inv t ∧ B.since s t
  | .error (.suspend u) t, r =>
    (B.permits u → r = .error (.suspend u) t) ∧ B.lost u t ∧ B.since s t
  | .error (.fault f) t, r => r = .error (.fault f) t ∧ B.failed f s t
  | .error e t, r => r = .error e t

/-- Where the invariant holds, `x` keeps to the bounds and `y` does the same. -/
def Agrees (B : Bounds σ) (x y : EStateM Unwind σ α) : Prop := ∀ s, B.inv s → B.Meets s (x s) (y s)

namespace Bounds.Meets

theorem bind {s : σ} {x y : EStateM Unwind σ α} {f g : α → EStateM Unwind σ β}
    (hx : B.Meets s (x s) (y s))
    (hf : ∀ a t, x s = .ok a t → B.inv t → B.since s t → B.Meets t (f a t) (g a t)) :
    B.Meets s ((x >>= f) s) ((y >>= g) s) := by
  show B.Meets s (EStateM.bind x f s) (EStateM.bind y g s)
  unfold EStateM.bind
  cases hxs : x s with
  | ok a t =>
    rw [hxs] at hx
    obtain ⟨hy, hinv, hsince⟩ := hx
    rw [hy]
    have hft := hf a t hxs hinv hsince
    dsimp only
    cases hr : f a t with
    | ok b u =>
      rw [hr] at hft
      exact ⟨hft.1, hft.2.1, B.trans hsince hft.2.2⟩
    | error e u =>
      rw [hr] at hft
      cases e with
      | suspend c => exact ⟨hft.1, hft.2.1, B.trans hsince hft.2.2⟩
      | fault c => exact ⟨hft.1, B.failed_trans hsince hft.2⟩
      | overflow => exact hft
      | exhausted => exact hft
  | error e t =>
    rw [hxs] at hx
    cases e with
    | suspend c => exact ⟨fun hc => by rw [hx.1 hc], hx.2⟩
    | fault c => exact ⟨by rw [hx.1], hx.2⟩
    | overflow => dsimp only; rw [show y s = .error .overflow t from hx]; rfl
    | exhausted => dsimp only; rw [show y s = .error .exhausted t from hx]; rfl

/-- What is known from a later state on holds from an earlier one on. -/
theorem since_left {s t : σ} {r r' : EStateM.Result Unwind σ α} (h : B.Meets t r r')
    (hs : B.since s t) : B.Meets s r r' := by
  cases r with
  | ok a u => exact ⟨h.1, h.2.1, B.trans hs h.2.2⟩
  | error e u =>
    cases e with
    | suspend c => exact ⟨h.1, h.2.1, B.trans hs h.2.2⟩
    | fault c => exact ⟨h.1, B.failed_trans hs h.2⟩
    | overflow => exact h
    | exhausted => exact h

/-- A step without suspension that keeps to the bounds agrees with itself. -/
theorem self {s : σ} {r : EStateM.Result Unwind σ α}
    (hok : ∀ a t, r = .ok a t → B.inv t ∧ B.since s t)
    (herror : ∀ e t, r = .error e t → e.Own ∧ ∀ f, (Unwind.fault f).Own → B.failed f s t) :
    B.Meets s r r := by
  cases r with
  | ok a t => exact ⟨rfl, hok a t rfl⟩
  | error e t =>
    cases e with
    | suspend c => exact ((herror _ t rfl).1).elim
    | fault c => exact ⟨rfl, (herror _ t rfl).2 c (herror _ t rfl).1⟩
    | overflow => rfl
    | exhausted => rfl

/-- If all suspensions count, both endings are the same. -/
theorem eq {s : σ} {r r' : EStateM.Result Unwind σ α} (h : B.Meets s r r')
    (hp : ∀ u, B.permits u) : r' = r := by
  cases r with
  | ok a t => exact h.1
  | error e t =>
    cases e with
    | suspend u => exact h.1 (hp u)
    | fault f => exact h.1
    | overflow => exact h
    | exhausted => exact h

end Bounds.Meets

namespace Agrees

theorem bind {x y : EStateM Unwind σ α} {f g : α → EStateM Unwind σ β} (hx : Agrees B x y)
    (hf : ∀ a, Agrees B (f a) (g a)) : Agrees B (x >>= f) (y >>= g) :=
  fun s hs => (hx s hs).bind fun a t _ ht _ => hf a t ht

theorem pure (a : α) : Agrees B (pure a) (pure a) := fun s hs => ⟨rfl, hs, B.refl s⟩

end Agrees

end Agrees

/-! ## How a machine evolves -/

variable {F S : Type}

/-- A later state of a machine: the counters are restored, nothing below the base was changed,
and every function has kept its body. -/
structure Machine.Evolves (base : Nat) (m m' : Machine F S) : Prop where
  stack : Stack.KeptBelow base m.thread.stack m'.thread.stack
  depth : m'.thread.depth = m.thread.depth
  boundaries : m'.thread.boundaries = m.thread.boundaries
  current : m'.thread.current = m.thread.current
  globals : m'.world.globals = m.world.globals
  config : m'.world.config = m.world.config
  grown : m.heap.functions.size ≤ m'.heap.functions.size
  functions : ∀ f : FnId, f.index < m.heap.functions.size →
    (m.heap.function f).Kept (m'.heap.function f)

namespace Machine

theorem Undisturbed.evolves {base : Nat} {m m' : Machine F S} (h : m.Undisturbed m')
    (hs : Stack.KeptBelow base m.thread.stack m'.thread.stack) : m.Evolves base m' :=
  { h with stack := hs }

theorem Still.evolves {base : Nat} {m m' : Machine F S} (h : m.Still m') : m.Evolves base m' :=
  h.toUndisturbed.evolves (h.stack ▸ .refl _ _)

namespace Evolves

theorem refl (base : Nat) (m : Machine F S) : m.Evolves base m := (Still.refl m).evolves

theorem trans {base : Nat} {m m' m'' : Machine F S} (h : m.Evolves base m')
    (k : m'.Evolves base m'') : m.Evolves base m'' where
  stack := h.stack.trans k.stack
  depth := k.depth.trans h.depth
  boundaries := k.boundaries.trans h.boundaries
  current := k.current.trans h.current
  globals := k.globals.trans h.globals
  config := k.config.trans h.config
  grown := Nat.le_trans h.grown k.grown
  functions f hf := (h.functions f hf).trans (k.functions f (Nat.lt_of_lt_of_le hf h.grown))

theorem mono {base base' : Nat} {m m' : Machine F S} (hb : base ≤ base')
    (h : m.Evolves base' m') : m.Evolves base m' := { h with stack := h.stack.mono hb }

end Evolves

end Machine

end ScriptCore
