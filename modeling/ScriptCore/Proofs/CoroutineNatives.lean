import ScriptCore.Proofs.Regime

/-!
# Functions on coroutines in step

A relation `Attends` to coroutines if it holds only of machines whose coroutines are in the same
states; there the functions that tell these states run in step. If it goes on to hold when both
machines make one more (`Escorts`), so do those that make coroutines. With the plain functions these
are all that neither call anything nor resume or yield (`runBuiltin_inert_answers`).
-/

namespace ScriptCore

open Machine

/-- Related machines have coroutines in the same states. -/
structure Attends {F S : Type} (R : Machine F S → Machine F S → Prop) : Prop where
  status {a b : Machine F S} : R a b → ∀ co,
    (a.heap.coroutine co).status = (b.heap.coroutine co).status
  current {a b : Machine F S} : R a b → a.thread.current = b.thread.current
  boundaries {a b : Machine F S} : R a b → a.thread.boundaries = b.thread.boundaries

/-- Runs that leave the counters alone leave the coroutines as they are. -/
theorem Abreast.attends {F S : Type} [HostFunction F] (m : Machine F S) : Attends (Abreast m) where
  status h co := by
    rw [Heap.coroutine, Heap.coroutine, h.left.coroutines, h.right.coroutines]
  current h := h.left.current.trans h.right.current.symm
  boundaries h := h.left.boundaries.trans h.right.boundaries.symm

/-- Related machines remain so when both make a coroutine, as it is or wrapped. -/
structure Escorts {F S : Type} (R : Machine F S → Machine F S → Prop) : Prop extends Attends R where
  count {a b : Machine F S} : R a b → a.heap.coroutines.size = b.heap.coroutines.size
  create {a b : Machine F S} : R a b → ∀ body, R (a.withCoroutine body) (b.withCoroutine body)
  wrap : ∀ co, Admits R (.wrapped co) (.wrapped co)

/-- The library functions that neither call, nor resume, nor yield. -/
def Builtin.isInert : Builtin → Bool
  | .tostring | .print | .resume | .yield => false
  | _ => true

namespace Coroutines

section Told

variable {F S : Type} [HostFunction F] {R : Machine F S → Machine F S → Prop} {v w : View}
variable (hA : Attends R) (hR : Closed R)

include hA hR

theorem running_answers : Answers R (running : M F S Unit) running := by
  refine InStep.bindAnswers (V := fun a b => a.thread.current = b.thread.current)
    (fun a b h => ⟨hA.current h, h⟩) fun a b hcurrent => ?_
  rw [hcurrent]
  split <;> exact giveAll_answers hR _

theorem isyieldable_answers : Answers R (isyieldable : M F S Unit) isyieldable := by
  refine InStep.answers (read_inStep fun a b h => ?_) fun _ => give_answers hR _
  rw [hA.current h, hA.boundaries h]

theorem status_answers (hS : Shares R v w) : Answers R (status v : M F S Unit) (status w) := by
  refine (Args.checkCoroutine_inStep hR hS 1 "status").answers fun co => ?_
  refine InStep.bindAnswers (V := fun c d => c.status = d.status)
    (read_inStep fun a b h => hA.status h co) fun c d hcd => ?_
  rw [hcd]
  exact give_answers hR _

end Told

section Made

variable {F S : Type} {R : Machine F S → Machine F S → Prop} (hE : Escorts R)

include hE

/-- Both machines have as many coroutines, so the new one has one name. -/
theorem newCoroutine_inStep (body : Val) :
    InStep R Eq (newCoroutine body : M F S CoId) (newCoroutine body) := fun _ _ h =>
  ⟨congrArg CoId.mk (hE.count h), hE.create h body⟩

variable [HostFunction F] {v w : View} (hR : Closed R) (hS : Shares R v w)

include hR hS

theorem create_answers : Answers R (create v : M F S Unit) (create w) :=
  (Args.checkFunction_inStep hR hS 1 "create").answers fun _ =>
    (newCoroutine_inStep hE _).answers fun _ => give_answers hR _

theorem wrap_answers : Answers R (wrap v : M F S Unit) (wrap w) :=
  (Args.checkFunction_inStep hR hS 1 "wrap").answers fun _ =>
    (newCoroutine_inStep hE _).answers fun co =>
      (newFunctionVal_inStep hR (hE.wrap co)).answers fun _ => give_answers hR _

end Made

end Coroutines

/-- **Functions on coroutines.** An inert function ends in the same way on windows with equal live
slots. -/
theorem runBuiltin_inert_answers {F S : Type} [HostBody F S] {R : Machine F S → Machine F S → Prop}
    {v w : View} (hE : Escorts R) (hR : Closed R) (P P' : Perform F S) {b : Builtin}
    (hS : Shares R v w) (hb : b.isInert)
    (hargs : ∀ i, b.arity.Provides i → ∀ m m', R m m' →
      v.slot m.thread.stack i = w.slot m'.thread.stack i) :
    Answers R (runBuiltin P b v) (runBuiltin P' b w) := by
  by_cases hplain : b.isPlain
  · exact runBuiltin_answers P P' hR hS hplain hargs
  cases b with
  | create => exact Coroutines.create_answers hE hR hS
  | wrap => exact Coroutines.wrap_answers hE hR hS
  | status => exact Coroutines.status_answers hE.toAttends hR hS
  | running => exact Coroutines.running_answers hE.toAttends hR
  | isyieldable => exact Coroutines.isyieldable_answers hE.toAttends hR
  | tostring | print | resume | yield => cases hb
  | _ => exact (hplain rfl).elim

end ScriptCore
