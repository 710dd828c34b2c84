import ScriptCore.Proofs.CoroutineNatives
import ScriptCore.Proofs.Keeping

/-!
# Resumes

A resume turns to a coroutine, runs it, and turns back (`resume_eq`, `handBack`); it changes
nothing if the coroutine is not suspended (`resume_refused`). Regimes are kept by resumes and by
the functions of the coroutine library.
-/

namespace ScriptCore

open Machine

variable {F S : Type} {α : Type}

namespace Machine

/-! ## Equations of resumes -/

theorem transition_ok (co : CoId) (next : Coroutine) (m : Machine F S) :
    ∃ t, transition co next m = .ok () { m with
      heap := { m.heap with coroutines := m.heap.coroutines.setIfInBounds co.index next }
      trace := t } := by
  obtain ⟨t, ht⟩ := record_ok m fun _ => .status (m.heap.coroutine co).status next.status
  exact ⟨t, bind_of_ok ht⟩

theorem transition?_ok (co : Option CoId) (next : Coroutine) (m : Machine F S) :
    ∃ t, transition? co next m = .ok () { m with
      heap := { m.heap with coroutines := turn m.heap.coroutines co next }
      trace := t } := by
  cases co with
  | none => exact ⟨m.trace, rfl⟩
  | some co => exact transition_ok co next m

/-- Turns back from a coroutine that ended in some way. -/
def handBack (outer : Option CoId) (boundaries : Nat) (co : CoId) (ending : Except Unwind Unit) :
    M F S Outcome := do
  let _ ← switchTo outer boundaries
  transition? outer .running
  match ending with
  | .ok () =>
    transition co .dead
    return .returned
  | .error (.suspend s) =>
    transition co (.suspended s.chain)
    giveAll s.values
    return .yielded
  | .error (.fault f) =>
    transition co .dead
    fail f
  | .error e => throw e

theorem resumeWith_eq (co : CoId) (n : Nat) (m : Machine F S) : ∃ t, ∀ run : M F S Unit,
    resumeWith co n run m =
      (attempt run >>= handBack m.thread.current m.thread.boundaries co)
        { m.turnedTo co with trace := t } := by
  let m₁ : Machine F S := { m with heap := { m.heap with
    coroutines := m.heap.coroutines.setIfInBounds co.index .running } }
  obtain ⟨t₂, h₂⟩ := record_ok m₁ fun _ => .resume n
  let m₃ : Machine F S := { m₁ with
    trace := t₂
    thread := { m.thread with current := some co, boundaries := 0 } }
  obtain ⟨t₄, h₄⟩ := transition?_ok m.thread.current .normal m₃
  exact ⟨t₄, fun run => (bind_of_ok h₂).trans (bind_of_ok h₄)⟩

/-- A machine in which the coroutine before runs again. -/
def returnedTo (m : Machine F S) (outer : Option CoId) (boundaries : Nat) : Machine F S :=
  { m with
    heap := { m.heap with coroutines := turn m.heap.coroutines outer .running }
    thread := { m.thread with current := outer, boundaries := boundaries } }

theorem returnTo_ok (outer : Option CoId) (boundaries : Nat) (m : Machine F S) :
    ∃ t, ∀ k : M F S α,
      (do
        let _ ← switchTo outer boundaries
        transition? outer .running
        k) m = k { m.returnedTo outer boundaries with trace := t } := by
  obtain ⟨t, h⟩ := transition?_ok outer .running { m with
    thread := { m.thread with current := outer, boundaries := boundaries } }
  exact ⟨t, fun k => bind_of_ok h⟩

theorem turnBack_ok (outer : Option CoId) (boundaries : Nat) (co : CoId) (c : Coroutine)
    (m : Machine F S) : ∃ t, ∀ k : M F S α,
      (do
        let _ ← switchTo outer boundaries
        transition? outer .running
        transition co c
        k) m = k { m.turnedBack outer boundaries co c with trace := t } := by
  obtain ⟨t, h⟩ := returnTo_ok (α := α) outer boundaries m
  obtain ⟨t', h'⟩ := transition_ok co c { m.returnedTo outer boundaries with trace := t }
  exact ⟨t', fun k => (h _).trans (bind_of_ok h')⟩

variable (outer : Option CoId) (boundaries : Nat) (co : CoId) (m : Machine F S)

theorem handBack_ok : ∃ t, handBack outer boundaries co (.ok ()) m =
    .ok .returned { m.turnedBack outer boundaries co .dead with trace := t } := by
  obtain ⟨t, h⟩ := turnBack_ok (α := Outcome) outer boundaries co .dead m
  exact ⟨t, h (pure .returned)⟩

theorem handBack_fault (f : Fault) : ∃ t, handBack outer boundaries co (.error (.fault f)) m =
    .error (.fault f) { m.turnedBack outer boundaries co .dead with trace := t } := by
  obtain ⟨t, h⟩ := turnBack_ok (α := Outcome) outer boundaries co .dead m
  exact ⟨t, h (fail f)⟩

theorem handBack_suspend (s : Suspension) : ∃ t,
    handBack outer boundaries co (.error (.suspend s)) m =
      (do giveAll s.values; return Outcome.yielded : M F S Outcome)
        { m.turnedBack outer boundaries co (.suspended s.chain) with trace := t } := by
  obtain ⟨t, h⟩ := turnBack_ok (α := Outcome) outer boundaries co (.suspended s.chain) m
  exact ⟨t, h (do giveAll s.values; return Outcome.yielded)⟩

theorem handBack_throw {e : Unwind} (he : ¬ e.Regular) : ∃ t,
    handBack outer boundaries co (.error e) m =
      .error e { m.returnedTo outer boundaries with trace := t } := by
  obtain ⟨t, h⟩ := returnTo_ok (α := Outcome) outer boundaries m
  cases e with
  | suspend | fault => exact (he trivial).elim
  | overflow => exact ⟨t, h (throw Unwind.overflow)⟩
  | exhausted => exact ⟨t, h (throw Unwind.exhausted)⟩

/-- What is done with a coroutine that is to be resumed. -/
def resumeFrom (P : Perform F S) (window : View) (co : CoId) (args : List Val) :
    Coroutine → M F S Outcome
  | .dead => fail (.coroutine .dead)
  | .running | .normal => fail (.coroutine .active)
  | .fresh body => resumeWith co args.length (callWith P window body args)
  | .suspended chain => resumeWith co args.length (P (.replay chain args window))

theorem resume_from (P : Perform F S) (window : View) (co : CoId) (args : List Val)
    (m : Machine F S) :
    resume P window co args m = resumeFrom P window co args (m.heap.coroutine co) m := by
  show (match m.heap.coroutine co with
    | .dead => fail (.coroutine .dead)
    | .running | .normal => fail (.coroutine .active)
    | .fresh body => resumeWith co args.length (callWith P window body args)
    | .suspended chain => resumeWith co args.length (P (.replay chain args window)) :
      M F S Outcome) m = _
  cases m.heap.coroutine co <;> rfl

/-- What runs in a suspended coroutine that is resumed. -/
def segment (P : Perform F S) (window : View) (args : List Val) : Coroutine → M F S Unit
  | .fresh body => callWith P window body args
  | .suspended chain => P (.replay chain args window)
  | _ => pure ()

/-- A suspended coroutine is turned to, runs, and is turned back from. -/
theorem resume_eq (args : List Val) {co : CoId} {m : Machine F S}
    (h : (m.heap.coroutine co).status = .suspended) : ∃ t, ∀ (P : Perform F S) window,
    resume P window co args m =
      (attempt (segment P window args (m.heap.coroutine co)) >>=
        handBack m.thread.current m.thread.boundaries co)
        { m.turnedTo co with trace := t } := by
  obtain ⟨t, ht⟩ := resumeWith_eq co args.length m
  refine ⟨t, fun P window => ?_⟩
  rw [resume_from]
  cases hc : m.heap.coroutine co with
  | fresh body => exact ht _
  | suspended chain => exact ht _
  | dead => rw [hc] at h; cases h
  | running => rw [hc] at h; cases h
  | normal => rw [hc] at h; cases h

/-- **Refused resumes.** A coroutine that is not suspended is not resumed, and nothing changes. -/
theorem resume_refused (P : Perform F S) (window : View) (args : List Val) {co : CoId}
    {m : Machine F S} (h : (m.heap.coroutine co).status ≠ .suspended) :
    resume P window co args m = .error (.fault (.coroutine
      (if (m.heap.coroutine co).status = .dead then .dead else .active))) m := by
  rw [resume_from]
  cases hc : m.heap.coroutine co with
  | fresh body => rw [hc] at h; exact (h rfl).elim
  | suspended chain => rw [hc] at h; exact (h rfl).elim
  | dead => rfl
  | running => rfl
  | normal => rfl

end Machine

/-! ## Regimes -/

namespace Regime

variable [HostBody F S] {W : Watch F S} (G : Regime W) {acts permitted : List Activity}
variable {base : Nat} {P P' : Perform F S} {co : CoId}

omit [HostBody F S] in
theorem evolves_turnedBack {m t u : Machine F S} {x : Option (Array TraceEvent)}
    (h : Machine.Evolves base { m.turnedTo co with trace := x } t) {c : Coroutine}
    (hu : (t.turnedBack m.thread.current m.thread.boundaries co c).Evolves base u) :
    m.Evolves base u :=
  have ht : m.Evolves base (t.turnedBack m.thread.current m.thread.boundaries co c) :=
    { h with boundaries := rfl, current := rfl }
  ht.trans hu

theorem segment_agrees (hP : G.Serves acts P P') (window : View) (args : List Val)
    (c : Coroutine) : Agrees (G.bounds acts acts window.base) (segment P window args c)
      (segment P' window args c) := by
  cases c with
  | fresh body => exact G.callWith_agrees hP window body args
  | suspended chain => exact fun m hm => hP (.replay chain args window) m hm
  | running | normal | dead => exact Agrees.pure _

/-- A resume keeps a regime, if what runs in the coroutine keeps it behind the resume. -/
theorem resume_agrees (hP : G.Serves (.resume co :: acts) P P') (window : View)
    (args : List Val) : Agrees (G.bounds acts permitted window.base)
      (Machine.resume P window co args) (Machine.resume P' window co args) := by
  intro m hm
  by_cases hc : (m.heap.coroutine co).status = .suspended
  · obtain ⟨t, ht⟩ := resume_eq args hc
    rw [ht, ht]
    have hrun := G.segment_agrees hP window args (m.heap.coroutine co)
      { m.turnedTo co with trace := t } (G.quiet (G.resume hm hc) (Still.ofTrace _ t).toUndisturbed)
    rw [attempt_bind, attempt_bind]
    cases hr : segment P window args (m.heap.coroutine co) { m.turnedTo co with trace := t } with
    | ok a u =>
      rw [hr] at hrun
      obtain ⟨hy, hinv, hsince⟩ := hrun
      rw [hy]
      obtain ⟨t', h'⟩ := handBack_ok m.thread.current m.thread.boundaries co u
      dsimp only
      rw [h']
      exact ⟨rfl, G.quiet (G.returned hm hinv) (Still.ofTrace _ t').toUndisturbed,
        evolves_turnedBack hsince (Still.ofTrace _ t').evolves⟩
    | error e u =>
      rw [hr] at hrun
      cases e with
      | suspend s =>
        obtain ⟨hy, ⟨hinv, hlost⟩, hsince⟩ := hrun
        rw [hy G.permits_resume]
        obtain ⟨t', h'⟩ := handBack_suspend m.thread.current m.thread.boundaries co u s
        dsimp only
        rw [h']
        refine Bounds.Meets.since_left (t := { u.turnedBack m.thread.current m.thread.boundaries co
          (.suspended s.chain) with trace := t' }) ?_ (evolves_turnedBack hsince (Still.ofTrace _ t').evolves)
        exact (G.still (V := Eq) fun m => giveAll_inStep (Abreast.closed m) s.values).bind
          (fun _ => Agrees.pure _) _
          (G.quiet (G.yielded hm hinv hlost) (Still.ofTrace _ t').toUndisturbed)
      | fault f =>
        obtain ⟨hy, hraises, hinv, hsince⟩ := hrun
        rw [hy]
        obtain ⟨t', h'⟩ := handBack_fault m.thread.current m.thread.boundaries co u f
        dsimp only
        rw [h']
        exact ⟨rfl, hraises, G.quiet (G.returned hm hinv) (Still.ofTrace _ t').toUndisturbed,
          evolves_turnedBack hsince (Still.ofTrace _ t').evolves⟩
      | overflow =>
        rw [show segment P' _ _ _ _ = .error .overflow u from hrun]
        obtain ⟨u', h'⟩ := handBack_throw m.thread.current m.thread.boundaries co u
          (e := .overflow) id
        dsimp only
        rw [h']
        rfl
      | exhausted =>
        rw [show segment P' _ _ _ _ = .error .exhausted u from hrun]
        obtain ⟨u', h'⟩ := handBack_throw m.thread.current m.thread.boundaries co u
          (e := .exhausted) id
        dsimp only
        rw [h']
        rfl
  · rw [resume_refused P window args hc, resume_refused P' window args hc]
    exact ⟨rfl, G.own trivial, hm, .refl _ _⟩

end Regime

/-! ## The coroutine library -/

theorem Args.arg_ok (args : View) (n : Nat) (m : Machine F S) :
    ∃ v, Args.arg args n m = .ok v m := by
  unfold Args.arg
  split
  · exact ⟨.nil, rfl⟩
  · exact ⟨_, rfl⟩

/-- The check of a coroutine argument only reads. -/
theorem Args.checkCoroutine_cases (args : View) (n : Nat) (name : String) (m : Machine F S) :
    (∃ co, checkCoroutine args n name m = .ok co m) ∨
      ∃ f, (Unwind.fault f).Own ∧ checkCoroutine args n name m = .error (.fault f) m := by
  obtain ⟨v, hv⟩ := arg_ok args n m
  have hmismatch : ∃ f, (Unwind.fault f).Own ∧
      (mismatch args n name "coroutine" : M F S CoId) m = .error (.fault f) m := by
    unfold mismatch
    split
    · exact ⟨_, by trivial, rfl⟩
    · exact ⟨_, by trivial, bind_of_ok hv⟩
  cases v with
  | co co => exact .inl ⟨co, bind_of_ok hv⟩
  | _ => exact .inr (hmismatch.imp fun f hf => ⟨hf.1, (bind_of_ok hv).trans hf.2⟩)

namespace Regime

variable [HostBody F S] {W : Watch F S} (G : Regime W) {acts permitted : List Activity}
variable {P P' : Perform F S} {PW : List Activity → Perform F S} {f : FnId}

theorem resumeNative_meets (hP : ∀ acts, G.Serves acts P (PW acts)) {args : View}
    {m : Machine F S} (hm : G.inv acts m) :
    (G.bounds acts permitted args.base).Meets m (Coroutines.resume P args m)
      ((do
        let co ← Args.checkCoroutine args 1 "resume"
        Coroutines.resume (PW (.resume co :: acts)) args) m) := by
  obtain ⟨co, hco⟩ | ⟨e, hown, he⟩ := Args.checkCoroutine_cases (S := S) args 1 "resume" m
  · rw [bind_of_ok hco]
    unfold Coroutines.resume
    rw [bind_of_ok hco, bind_of_ok hco]
    refine Bounds.Meets.bind (G.still (V := Eq) (fun m => valuesFrom_inStep (Abreast.closed m)
      (Abreast.shares m args) 1) m hm) fun values t _ ht _ => ?_
    have h : (G.bounds acts permitted (args.child args.top).base).Meets t _ _ :=
      G.resume_agrees (hP (.resume co :: acts)) (args.child args.top) values t ht
    refine G.attempt_meets (Nat.le_add_right args.base args.top) h (fun _ t hinv _ => ?_)
      (fun f t hraises hinv _ => ?_) (fun s t r hlost _ hr => ⟨hr, hlost, .refl _ _⟩)
      fun e he => ?_
    · exact G.still (V := Eq) (fun m =>
        (prependResult_answers (Abreast.closed m) (Abreast.hears m) _).inStep) t hinv
    · dsimp only
      split
      · exact G.still (V := Eq) (fun m => giveAll_inStep (Abreast.closed m) _) t hinv
      · exact ⟨rfl, hraises, hinv, .refl _ _⟩
    · cases e <;> first | exact (he trivial).elim | exact ⟨rfl, rfl⟩
  · have hleft : Coroutines.resume P args m = .error (.fault e) m := bind_of_error he
    rw [bind_of_error he, hleft]
    exact ⟨rfl, G.own hown, hm, .refl _ _⟩

omit [HostBody F S] in
theorem create_agrees [HostFunction F] (args : View) :
    Agrees (G.bounds acts permitted args.base) (Coroutines.create args) (Coroutines.create args) := by
  refine (G.still (V := Eq) fun m => Args.checkFunction_inStep (Abreast.closed m)
    (Abreast.shares m args) 1 _).bind fun body m hm => ?_
  refine Bounds.Meets.since_left (t := m.withCoroutine (.fn body)) ?_ { Evolves.refl _ m with }
  exact G.still (V := Eq) (fun m => give_inStep (Abreast.closed m) (.co ⟨_⟩)) _
    (G.create (.fn body) hm)

omit [HostBody F S] in
theorem wrap_agrees [HostFunction F] (args : View) :
    Agrees (G.bounds acts permitted args.base) (Coroutines.wrap args) (Coroutines.wrap args) := by
  refine (G.still (V := Eq) fun m => Args.checkFunction_inStep (Abreast.closed m)
    (Abreast.shares m args) 1 _).bind fun body m hm => ?_
  refine Bounds.Meets.since_left (t := m.withCoroutine (.fn body)) ?_ { Evolves.refl _ m with }
  exact (G.still (V := Eq) fun m => newFunctionVal_inStep (Abreast.closed m)
    (Abreast.admits m (.wrapped ⟨_⟩))).bind
    (fun _ => G.still (V := Eq) fun m => give_inStep (Abreast.closed m) _) _
    (G.create (.fn body) hm)

omit [HostBody F S] in
theorem status_agrees [HostFunction F] (args : View) :
    Agrees (G.bounds acts permitted args.base) (Coroutines.status args) (Coroutines.status args) :=
  G.still fun m => (Coroutines.status_answers (Abreast.attends m) (Abreast.closed m)
    (Abreast.shares m args)).inStep

omit [HostBody F S] in
theorem running_agrees [HostFunction F] (base : Nat) : Agrees (G.bounds acts permitted base)
    (Coroutines.running : M F S Unit) Coroutines.running :=
  G.still fun m => (Coroutines.running_answers (Abreast.attends m) (Abreast.closed m)).inStep

omit [HostBody F S] in
theorem isyieldable_agrees [HostFunction F] (base : Nat) : Agrees (G.bounds acts permitted base)
    (Coroutines.isyieldable : M F S Unit) Coroutines.isyieldable :=
  G.still fun m => (Coroutines.isyieldable_answers (Abreast.attends m) (Abreast.closed m)).inStep

omit [HostBody F S] in
theorem yieldNative_meets {args : View} {m : Machine F S} (hm : G.inv (.call f :: acts) m) :
    (G.bounds (.call f :: acts) acts args.base).Meets m (Coroutines.yield args m)
      (W.suspending acts (Coroutines.yield args) m) := by
  let values := args.values m.thread.stack m.heap.cells 0 args.top
  exact G.yieldValues_meets values hm (G.yieldNative values hm)

theorem callWrapped_meets (hP : ∀ acts, G.Serves acts P (PW acts)) (co : CoId) (args : View) :
    Agrees (G.bounds acts permitted args.base) (Coroutines.callWrapped P co args)
      (Coroutines.callWrapped (PW (.resume co :: acts)) co args) := by
  refine (G.still (V := Eq) fun m => valuesFrom_inStep (Abreast.closed m)
    (Abreast.shares m args) 0).bind fun values => Agrees.bind (fun m hm => ?_) fun _ =>
      Agrees.pure _
  exact G.base_mono (Nat.le_add_right args.base args.top)
    (G.resume_agrees (hP _) (args.child args.top) values m hm)

end Regime

end ScriptCore
