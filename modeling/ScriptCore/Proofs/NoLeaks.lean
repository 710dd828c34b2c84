import ScriptCore.Proofs.AlignedCalls
import ScriptCore.Proofs.Fuel

/-!
# No leftovers leak

The stack is never wiped, and the result channel keeps what the last call has left there. None of
that can be observed: two machines in one state (`Machine.SameState`), whatever their channels and
stacks hold, carry out the same calls and resumes with the same outcome and are in one state again
(`leftovers_unobserved`). So it does not matter on which thread, on which window and after which other
work a coroutine is resumed, or how large a stack starts out.
-/

namespace ScriptCore

open Machine

/-! ## What can be observed -/

/-- Two machines that differ at most in their result channels, their stacks, the size of new ones,
and their reports. -/
structure Machine.SameState (a b : Machine Empty PUnit) : Prop where
  heap : a.heap = b.heap
  world : a.world.Alike b.world
  depth : a.thread.depth = b.thread.depth
  boundaries : a.thread.boundaries = b.thread.boundaries
  current : a.thread.current = b.thread.current
  output : a.output = b.output
  journal : a.journal = b.journal

/-- Two runs end with equal results, or early for one cause, which for a suspension includes the
values yielded and the frames saved; and they end in one state. -/
def SameOutcome {α : Type} : EStateM.Result Unwind (Machine Empty PUnit) α →
    EStateM.Result Unwind (Machine Empty PUnit) α → Prop :=
  Concur (fun _ => SameState)
    fun u w a b => (u = w ∧ a.thread.results = b.thread.results) ∧ a.SameState b

/-- What can be asked of a thread from outside. -/
inductive Errand
  | call (target : Val) (args : List Val)
  | resume (co : CoId) (args : List Val)

/-- What a thread holds before an errand: what is in its channel and on its stack, and the window
that it is to use. -/
structure Ground where
  results : Results
  stack : Stack
  window : View

/-- A machine whose thread holds something else. -/
def Machine.onGround (m : Machine Empty PUnit) (g : Ground) : Machine Empty PUnit :=
  { m with thread := { m.thread with results := g.results, stack := g.stack } }

namespace Errand

/-- Does an errand on a window. -/
def run (P : Perform Empty PUnit) (window : View) : Errand → M Empty PUnit (Option Outcome)
  | .call target args => do
    callWith P window target args
    return none
  | .resume co args => do return some (← Machine.resume P window co args)

/-- How an errand ends, and the machine that it leaves. -/
def done (n : Nat) (e : Errand) (g : Ground) (m : Machine Empty PUnit) :
    Except Unwind (Option Outcome × Results) × Machine Empty PUnit :=
  match e.run (perform n) g.window (m.onGround g) with
  | .ok outcome t => (.ok (outcome, t.thread.results), t)
  | .error cause t => (.error cause, t)

end Errand

/-- Does errands one after another, each on a ground of its own. -/
def errands (n : Nat) : List (Errand × Ground) → Machine Empty PUnit →
    List (Except Unwind (Option Outcome × Results)) × Machine Empty PUnit
  | [], m => ([], m)
  | (e, g) :: rest, m =>
    let first := e.done n g m
    let others := errands n rest first.2
    (first.1 :: others.1, others.2)

/-! ## Aligned machines in one state -/

section State

variable {v v' : Overlap} {heard heard' : Prop} {a b : Machine Empty PUnit}

/-- The overlap of two windows that shares nothing. -/
def Overlap.none (w w' : View) : Overlap := ⟨w.base, w'.base, fun _ => False⟩

theorem Overlap.based_none (w w' : View) : (Overlap.none w w').Based 0 w w' := ⟨rfl, rfl⟩

/-- Kin with the same functions and coroutines have the same objects. -/
theorem Machine.Kin.heap_eq (h : a.Kin b)
    (hfunction : ∀ f, a.heap.function f = b.heap.function f)
    (hcoroutines : a.heap.coroutines = b.heap.coroutines) : a.heap = b.heap := by
  have hfunctions : a.heap.functions = b.heap.functions := by
    refine Array.ext h.count fun i hi hi' => ?_
    simpa [Heap.function, hi, hi'] using hfunction ⟨i⟩
  have htables := h.tables
  have hcells := h.cells
  generalize a.heap = x, b.heap = y at htables hcells hfunctions hcoroutines
  cases x
  cases y
  congr

namespace Aligned

theorem sameState (h : Aligned v heard a b) : a.SameState b where
  heap := h.toKin.heap_eq h.function_eq h.coroutines
  world := h.world
  depth := h.depth
  boundaries := h.boundaries
  current := h.current
  output := h.output
  journal := h.journal

theorem ofSameState (h : a.SameState b) (hprogram : ∀ f, (a.heap.function f).Standard)
    (hchains : ChainsFit a) (hslots : ∀ i, v.slots i →
      a.thread.stack.slot (v.left + i) = b.thread.stack.slot (v.right + i)) :
    Aligned v False a b where
  tables := congrArg Heap.tables h.heap
  cells := congrArg Heap.cells h.heap
  count := congrArg (fun heap => heap.functions.size) h.heap
  functions f := by rw [h.heap]; exact .same _
  bodies f := by rw [h.heap]
  world := h.world
  output := h.output
  journal := h.journal
  results := False.elim
  depth := h.depth
  boundaries := h.boundaries
  current := h.current
  coroutines := congrArg Heap.coroutines h.heap
  standard := hprogram
  chains := hchains
  slots := hslots

/-- Machines whose threads hold something else share nothing for sure. -/
theorem onGround (h : Aligned v heard a b) (g g' : Ground) :
    Aligned (.none g.window g'.window) False (a.onGround g) (b.onGround g') :=
  { h with results := False.elim, chains := { h.chains with }, slots := nofun }

end Aligned

end State

/-! ## Runs that end -/

/-- A run that ends ends in the same way with more fuel. -/
theorem Outlasts.eq {σ α : Type} {x y : EStateM Unwind σ α} (h : Outlasts .fuel x y) {s : σ}
    (hends : ¬ Exhausted (x s)) : x s = y s := (h s).resolve_left hends

namespace Errand

theorem run_outlasts {P P' : Perform Empty PUnit} {c : Limit} (hP : ∀ request, Outlasts c (P request) (P' request))
    (w : View) (e : Errand) : Outlasts c (e.run P w) (e.run P' w) := by
  cases e with
  | call target args => exact .andThen (.after _ fun w => hP _) _
  | resume co args => exact (resume_outlasts hP w co args).andThen _

/-- An errand on aligned machines, whatever the windows. -/
theorem run_concur (n : Nat) (e : Errand) {w w' : View} {a b : Machine Empty PUnit}
    (h : Aligned (.none w w') False a b) :
    Concur (Astray (.none w w')) (fun o o' a b => o = o' ∧ Aligned (.none w w') True a b)
      (e.run (perform n) w a) (e.run (perform n) w' b) := by
  cases e with
  | call target args =>
    have hcall := segment_concur (served n) h (Overlap.based_none w w') args
      (c := .fresh target) rfl nofun
    exact hcall.bind fun _ _ _ _ h => ⟨rfl, h⟩
  | resume co args =>
    refine (resume_concur (served n) h (Overlap.based_none w w') co args).bind fun o _ a b hend => ?_
    obtain ⟨rfl, h⟩ := hend
    exact ⟨rfl, h⟩

theorem done_eq {n N : Nat} (hn : n ≤ N) (e : Errand) (g : Ground) (m : Machine Empty PUnit)
    (hends : (e.done n g m).1 ≠ .error .exhausted) : e.done n g m = e.done N g m := by
  have hrun := e.run_outlasts (perform_outlasts hn) g.window (m.onGround g)
  unfold done at hends ⊢
  obtain ⟨t, ht⟩ | heq := hrun
  · rw [ht] at hends
    exact (hends rfl).elim
  · rw [heq]

theorem done_concur (n : Nat) (e : Errand) {v : Overlap} {a b : Machine Empty PUnit}
    (h : Aligned v False a b) (g g' : Ground) : (e.done n g a).1 = (e.done n g' b).1 ∧
      Aligned (.none g.window g'.window) False (e.done n g a).2 (e.done n g' b).2 := by
  have hrun := e.run_concur n (h.onGround g g')
  unfold done
  cases hx : e.run (perform n) g.window (a.onGround g) <;>
    cases hy : e.run (perform n) g'.window (b.onGround g') <;> rw [hx, hy] at hrun
  case ok.ok =>
    obtain ⟨rfl, h⟩ := hrun
    exact ⟨congrArg (fun r => Except.ok (_, r)) (h.results trivial), h.astray⟩
  case ok.error => exact hrun.elim
  case error.ok => exact hrun.elim
  case error.error =>
    obtain ⟨rfl, h⟩ := hrun
    exact ⟨rfl, h⟩

end Errand

/-- Errands that end, with any fuel, on any grounds. -/
theorem errands_concur (n n' : Nat) (jobs : List (Errand × Ground × Ground)) {v : Overlap}
    {a b : Machine Empty PUnit} (h : Aligned v False a b)
    (hleft : .error .exhausted ∉ (errands n (jobs.map fun j => (j.1, j.2.1)) a).1)
    (hright : .error .exhausted ∉ (errands n' (jobs.map fun j => (j.1, j.2.2)) b).1) :
    (errands n (jobs.map fun j => (j.1, j.2.1)) a).1 =
        (errands n' (jobs.map fun j => (j.1, j.2.2)) b).1 ∧
      (errands n (jobs.map fun j => (j.1, j.2.1)) a).2.SameState
        (errands n' (jobs.map fun j => (j.1, j.2.2)) b).2 := by
  induction jobs generalizing v a b with
  | nil => exact ⟨rfl, h.sameState⟩
  | cons job jobs ih =>
    obtain ⟨e, g, g'⟩ := job
    have hfirst := e.done_concur (max n n') h g g'
    rw [← e.done_eq (Nat.le_max_left n n') g a fun h => hleft (h ▸ List.mem_cons_self),
      ← e.done_eq (Nat.le_max_right n n') g' b fun h => hright (h ▸ List.mem_cons_self)] at hfirst
    obtain ⟨hending, haligned⟩ := hfirst
    obtain ⟨hendings, hstate⟩ := ih haligned (fun h => hleft (List.mem_cons_of_mem _ h))
      fun h => hright (List.mem_cons_of_mem _ h)
    refine ⟨?_, hstate⟩
    show _ :: _ = _ :: _
    rw [hending, hendings]

/-- **No leftovers leak.** In a program of valid bodies and library functions, two machines in one
state whose channels and stacks hold anything do the same: calls of one value on windows with
equal live slots, and resumes of one coroutine with the same values on any windows, have the same
outcome if they end. So do any calls and resumes one after another, each on a thread and a window of
its own. -/
theorem leftovers_unobserved (n n' : Nat) (a b : Machine Empty PUnit) (hstate : a.SameState b)
    (hprogram : ∀ f, (a.heap.function f).Standard) (hchains : ChainsFit a) :
    (∀ (target : Val) (w w' : View), w.top = w'.top →
      (∀ i < w.top, w.slot a.thread.stack i = w'.slot b.thread.stack i) →
      ¬ Exhausted (perform n (.call w target) a) → ¬ Exhausted (perform n' (.call w' target) b) →
      SameOutcome (perform n (.call w target) a) (perform n' (.call w' target) b)) ∧
    (∀ (co : CoId) (values : List Val) (w w' : View),
      ¬ Exhausted (resume (perform n) w co values a) →
      ¬ Exhausted (resume (perform n') w' co values b) →
      SameOutcome (resume (perform n) w co values a) (resume (perform n') w' co values b)) ∧
    ∀ jobs : List (Errand × Ground × Ground),
      .error .exhausted ∉ (errands n (jobs.map fun j => (j.1, j.2.1)) a).1 →
      .error .exhausted ∉ (errands n' (jobs.map fun j => (j.1, j.2.2)) b).1 →
      (errands n (jobs.map fun j => (j.1, j.2.1)) a).1 =
          (errands n' (jobs.map fun j => (j.1, j.2.2)) b).1 ∧
        (errands n (jobs.map fun j => (j.1, j.2.1)) a).2.SameState
          (errands n' (jobs.map fun j => (j.1, j.2.2)) b).2 := by
  -- Both runs end with their own fuel, so they do the same with as much as the other one has.
  have hless := fun request => perform_outlasts (Nat.le_max_left n n') request
  have hless' := fun request => perform_outlasts (Nat.le_max_right n n') request
  refine ⟨?_, ?_, fun jobs => ?_⟩
  · intro target w w' htop hslots hends hends'
    obtain ⟨base, top⟩ := w
    obtain ⟨base', _⟩ := w'
    obtain rfl : top = _ := htop
    let v : Overlap := ⟨base, base', (· < top)⟩
    have haligned : Aligned v False a b := .ofSameState hstate hprogram hchains hslots
    have hhands : v.Hands 0 top ⟨base, top⟩ ⟨base', top⟩ :=
      ⟨rfl, rfl, fun i hi => (Nat.zero_add i).symm ▸ hi⟩
    rw [(hless _).eq hends, (hless' _).eq hends']
    exact (served (max n n') haligned (.call hhands target)).mono
      (fun _ _ _ h => h.sameState) fun _ _ _ _ h => ⟨⟨rfl, h.results trivial⟩, h.sameState⟩
  · intro co values w w' hends hends'
    have haligned : Aligned (.none w w') False a b :=
      .ofSameState hstate hprogram hchains nofun
    rw [(resume_outlasts hless w co values).eq hends, (resume_outlasts hless' w' co values).eq hends']
    exact (resume_concur (served (max n n')) haligned (Overlap.based_none w w') co values).mono
      (fun _ _ _ h => h.sameState) fun _ _ _ _ h => ⟨⟨h.1, h.2.results trivial⟩, h.2.sameState⟩
  · exact errands_concur n n' jobs
      (Aligned.ofSameState (v := .none .root .root) hstate hprogram hchains nofun)

/-! ## A coroutine on two threads -/

/-- The function that yields, and a coroutine whose body calls its argument. -/
def Heap.relaying : Heap Empty :=
  ⟨#[], #[], #[.builtin .yield, .closure .asking #[]], #[.fresh (.fn ⟨1⟩)]⟩

/-- A thread that has not run. -/
def Ground.clean : Ground := ⟨.empty, .ofCapacity 4, .root⟩

/-- A thread with a stale tail call in its channel and stale values on its stack, with a window
that starts further on. -/
def Ground.soiled : Ground :=
  ⟨.tailCall (.int 7) [.nil], ⟨#[.value (.int 1), .value (.fn ⟨0⟩), .value (.int 2)]⟩, ⟨1, 1⟩⟩

namespace Machine

/-- The first thread on the heap. -/
def relaying : Machine Empty PUnit := (start .relaying ⟨200, 4, 100⟩ none ⟨⟩).onGround .clean

/-- Another thread, with stacks that start out larger. -/
def relayingSoiled : Machine Empty PUnit :=
  (start .relaying ⟨200, 64, 100⟩ none ⟨⟩).onGround .soiled

theorem relaying_sameState : relaying.SameState relayingSoiled :=
  ⟨rfl, ⟨rfl, rfl, rfl, rfl⟩, rfl, rfl, rfl, rfl, rfl⟩

theorem relaying_standard (f : FnId) : (relaying.heap.function f).Standard := by
  obtain ⟨i⟩ := f
  rcases i with _ | _ | i
  · exact trivial
  · exact Proto.asking_orderly.valid
  · exact trivial

theorem relaying_chains : ChainsFit relaying := by
  have hfresh : ∀ (co : CoId) chain, Heap.relaying.coroutine co ≠ .suspended chain := by
    rintro ⟨_ | i⟩ chain h
    · cases h
    · cases h
  exact { ChainsFit.start ⟨200, 4, 100⟩ none PUnit.unit hfresh with }

end Machine

/-- The coroutine is resumed with the function that yields, then with an integer, and then once
more although it is dead. -/
def relayed : List (Errand × Ground × Ground) :=
  [(.resume ⟨0⟩ [.fn ⟨0⟩], .clean, .soiled), (.resume ⟨0⟩ [.int 5], .soiled, .clean),
    (.resume ⟨0⟩ [], .clean, .clean)]

theorem leftovers_unobserved_relaying :
    relaying.SameState relayingSoiled ∧ (∀ f, (relaying.heap.function f).Standard) ∧
    ChainsFit relaying ∧
    SameOutcome (perform 8 (.call ⟨0, 1⟩ (.fn ⟨1⟩)) relaying)
      (perform 9 (.call ⟨3, 1⟩ (.fn ⟨1⟩)) relayingSoiled) ∧
    SameOutcome (resume (perform 8) .root ⟨0⟩ [.fn ⟨0⟩] relaying)
      (resume (perform 9) ⟨1, 1⟩ ⟨0⟩ [.fn ⟨0⟩] relayingSoiled) ∧
    (errands 8 (relayed.map fun j => (j.1, j.2.1)) relaying).1 =
        (errands 9 (relayed.map fun j => (j.1, j.2.2)) relayingSoiled).1 ∧
      (errands 8 (relayed.map fun j => (j.1, j.2.1)) relaying).2.SameState
        (errands 9 (relayed.map fun j => (j.1, j.2.2)) relayingSoiled).2 := by
  obtain ⟨hcalls, hresumes, herrands⟩ := leftovers_unobserved 8 9 relaying relayingSoiled
    relaying_sameState relaying_standard relaying_chains
  refine ⟨relaying_sameState, relaying_standard, relaying_chains, ?_, ?_, ?_⟩
  · refine hcalls (.fn ⟨1⟩) ⟨0, 1⟩ ⟨3, 1⟩ rfl (fun i hi => ?_) (by decide +kernel)
      (by decide +kernel)
    obtain rfl : i = 0 := Nat.lt_one_iff.1 hi
    rfl
  · exact hresumes ⟨0⟩ [.fn ⟨0⟩] .root ⟨1, 1⟩ (by decide +kernel) (by decide +kernel)
  · have hends : ∀ {l : List (Except Unwind (Option Outcome × Results))},
        (l.map fun
          | .error .exhausted => true
          | _ => false) = [false, false, false] → .error .exhausted ∉ l := by
      intro l hl hmem
      have hspent := List.mem_map_of_mem (f := fun
        | Except.error Unwind.exhausted => true
        | _ => false) hmem
      rw [hl] at hspent
      simp at hspent
    exact herrands relayed (hends (by decide +kernel)) (hends (by decide +kernel))

end ScriptCore
