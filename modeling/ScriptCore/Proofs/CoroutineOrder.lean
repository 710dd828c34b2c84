import ScriptCore.Proofs.Requests

/-!
# The states of coroutines

At every point of a run, the coroutines whose resume is in progress are distinct, the innermost
of them is the running one and the others are normal, and all other coroutines are suspended or
dead (`CoroutinesInOrder`). A dead coroutine stays dead, a coroutine that is not suspended is not
resumed, and a resumed one ends suspended or dead as its body suspends or ends.
`coroutine_states` puts these together.
-/

namespace ScriptCore

open Machine

variable {F S : Type}

/-- The resumes in progress, innermost first. -/
def resumes (acts : List Activity) : List CoId := acts.filterMap fun
  | .resume co => some co
  | _ => none

/-- The states of all coroutines fit the resumes in progress. -/
structure CoroutinesInOrder (active : List CoId) (m : Machine F S) : Prop where
  distinct : active.Nodup
  current : m.thread.current = active.head?
  running : ∀ co, active.head? = some co → m.heap.coroutine co = .running
  normal : ∀ co ∈ active.tail, m.heap.coroutine co = .normal
  others : ∀ co, co ∉ active →
    (m.heap.coroutine co).status = .suspended ∨ (m.heap.coroutine co).status = .dead

/-- A coroutine of the machine that is dead. -/
def IsDead (co : CoId) (m : Machine F S) : Prop :=
  co.index < m.heap.coroutines.size ∧ m.heap.coroutine co = .dead

/-! ## Changes of state -/

/-- A coroutine that is not dead is one of the machine. -/
theorem lt_size_of_ne_dead {h : Heap F} {co : CoId} (hco : h.coroutine co ≠ .dead) :
    co.index < h.coroutines.size := by
  refine Nat.lt_of_not_le fun hle => hco ?_
  rw [Heap.coroutine, Array.getD_eq_getD_getElem?, Array.getElem?_eq_none hle]
  rfl

theorem size_turn (cs : Array Coroutine) (target : Option CoId) (c : Coroutine) :
    (turn cs target c).size = cs.size := by
  cases target <;> simp [turn]

/-- A turn changes the state of its coroutine and of no other. -/
theorem getD_turn (cs : Array Coroutine) (target : Option CoId) (c : Coroutine) (co : CoId) :
    (turn cs target c).getD co.index .dead =
      if target = some co ∧ co.index < cs.size then c else cs.getD co.index .dead := by
  cases target with
  | none => rfl
  | some x =>
    obtain ⟨i⟩ := x
    obtain ⟨j⟩ := co
    simp only [turn, Array.getD_eq_getD_getElem?, Array.getElem?_setIfInBounds, Option.some.injEq,
      CoId.mk.injEq]
    by_cases hij : i = j
    · subst hij
      by_cases hi : i < cs.size <;> simp [hi]
    · simp [hij]

theorem coroutine_turnedTo (m : Machine F S) (co x : CoId) :
    (m.turnedTo co).heap.coroutine x =
      if m.thread.current = some x ∧ x.index < m.heap.coroutines.size then .normal
      else if co = x ∧ x.index < m.heap.coroutines.size then .running
      else m.heap.coroutine x := by
  rw [Heap.coroutine, turnedTo, getD_turn, getD_turn, size_turn]
  simp only [Option.some.injEq]
  rfl

theorem coroutine_turnedBack (m : Machine F S) (outer : Option CoId) (boundaries : Nat)
    (co : CoId) (c : Coroutine) (x : CoId) :
    (m.turnedBack outer boundaries co c).heap.coroutine x =
      if co = x ∧ x.index < m.heap.coroutines.size then c
      else if outer = some x ∧ x.index < m.heap.coroutines.size then .running
      else m.heap.coroutine x := by
  rw [Heap.coroutine, turnedBack, getD_turn, getD_turn, size_turn]
  simp only [Option.some.injEq]
  rfl

theorem coroutine_withCoroutine (m : Machine F S) (body : Val) (x : CoId) :
    (m.withCoroutine body).heap.coroutine x =
      if x.index = m.heap.coroutines.size then .fresh body else m.heap.coroutine x := by
  simp only [Heap.coroutine, withCoroutine, Array.getD_eq_getD_getElem?, Array.getElem?_push]
  split <;> rfl

namespace CoroutinesInOrder

variable {active : List CoId} {m m' : Machine F S} {co : CoId}

/-- What is in progress is neither suspended nor dead. -/
theorem busy (h : CoroutinesInOrder active m) (hco : co ∈ active) :
    m.heap.coroutine co = .running ∨ m.heap.coroutine co = .normal := by
  cases active with
  | nil => cases hco
  | cons x active =>
    obtain rfl | hco := List.mem_cons.1 hco
    · exact .inl (h.running co rfl)
    · exact .inr (h.normal co hco)

theorem lt_size (h : CoroutinesInOrder active m) (hco : co ∈ active) :
    co.index < m.heap.coroutines.size := by
  refine lt_size_of_ne_dead ?_
  obtain h | h := h.busy hco <;> rw [h] <;> nofun

theorem notMem_of_suspended (h : CoroutinesInOrder active m)
    (hco : (m.heap.coroutine co).status = .suspended) : co ∉ active := by
  intro hmem
  obtain h | h := h.busy hmem <;> rw [h] at hco <;> cases hco

theorem notMem_of_dead (h : CoroutinesInOrder active m) (hco : m.heap.coroutine co = .dead) :
    co ∉ active := by
  intro hmem
  obtain h | h := h.busy hmem <;> rw [h] at hco <;> cases hco

theorem mem_tail (h : CoroutinesInOrder active m) (hco : co ∈ active)
    (hne : m.thread.current ≠ some co) : co ∈ active.tail := by
  rw [h.current] at hne
  cases active with
  | nil => cases hco
  | cons x active =>
    obtain rfl | hco := List.mem_cons.1 hco
    · exact (hne rfl).elim
    · exact hco

theorem ne_current (h : CoroutinesInOrder active m) (hco : co ∈ active.tail) :
    m.thread.current ≠ some co := by
  rw [h.current]
  cases active with
  | nil => cases hco
  | cons x active =>
    rintro ⟨⟩
    exact (List.nodup_cons.1 h.distinct).1 hco

/-- A coroutine is resumed. -/
theorem turnedTo (h : CoroutinesInOrder active m)
    (hco : (m.heap.coroutine co).status = .suspended) :
    CoroutinesInOrder (co :: active) (m.turnedTo co) := by
  have hnot : co ∉ active := h.notMem_of_suspended hco
  have hcurrent : ∀ x, m.thread.current = some x → x ∈ active := fun x hx =>
    List.mem_of_head? (h.current.symm.trans hx)
  have hsize : co.index < m.heap.coroutines.size :=
    lt_size_of_ne_dead fun hdead => by rw [hdead] at hco; cases hco
  refine ⟨List.nodup_cons.2 ⟨hnot, h.distinct⟩, rfl, ?_, ?_, ?_⟩
  · rintro x ⟨⟩
    rw [coroutine_turnedTo, if_neg fun hx => hnot (hcurrent _ hx.1), if_pos ⟨rfl, hsize⟩]
  · intro x hx
    have hx : x ∈ active := hx
    rw [coroutine_turnedTo]
    by_cases hhead : m.thread.current = some x
    · rw [if_pos ⟨hhead, h.lt_size hx⟩]
    · have hne : co ≠ x := fun heq => hnot (heq ▸ hx)
      rw [if_neg fun hx => hhead hx.1, if_neg fun hx => hne hx.1]
      exact h.normal x (h.mem_tail hx hhead)
  · intro x hx
    have hne : co ≠ x := fun heq => hx (heq ▸ List.mem_cons_self)
    have hmem : x ∉ active := fun hmem => hx (List.mem_cons_of_mem _ hmem)
    rw [coroutine_turnedTo, if_neg fun hx => hmem (hcurrent _ hx.1), if_neg fun hx => hne hx.1]
    exact h.others x hmem

/-- A coroutine that was resumed hands control back. -/
theorem turnedBack (h : CoroutinesInOrder active m) (h' : CoroutinesInOrder (co :: active) m')
    {c : Coroutine} (hc : c.status = .suspended ∨ c.status = .dead) (boundaries : Nat) :
    CoroutinesInOrder active (m'.turnedBack m.thread.current boundaries co c) := by
  obtain ⟨hnot, hdistinct⟩ := List.nodup_cons.1 h'.distinct
  have hcurrent : ∀ x, m.thread.current = some x → x ∈ active := fun x hx =>
    List.mem_of_head? (h.current.symm.trans hx)
  refine ⟨hdistinct, h.current, ?_, ?_, ?_⟩
  · intro x hx
    have hmem : x ∈ active := List.mem_of_head? hx
    have hne : co ≠ x := fun heq => hnot (heq ▸ hmem)
    rw [coroutine_turnedBack, if_neg fun hx => hne hx.1,
      if_pos ⟨h.current.trans hx, h'.lt_size (List.mem_cons_of_mem _ hmem)⟩]
  · intro x hx
    have hmem : x ∈ active := List.mem_of_mem_tail hx
    have hne : co ≠ x := fun heq => hnot (heq ▸ hmem)
    have hhead := h.ne_current hx
    rw [coroutine_turnedBack, if_neg fun hx => hne hx.1, if_neg fun hx => hhead hx.1]
    exact h'.normal x hmem
  · intro x hx
    rw [coroutine_turnedBack]
    by_cases heq : co = x
    · subst heq
      rw [if_pos ⟨rfl, h'.lt_size List.mem_cons_self⟩]
      exact hc
    · rw [if_neg fun hx => heq hx.1, if_neg fun hx' => hx (hcurrent _ hx'.1)]
      refine h'.others x fun hmem => ?_
      obtain rfl | hmem := List.mem_cons.1 hmem
      · exact heq rfl
      · exact hx hmem

/-- A new coroutine is suspended. -/
theorem withCoroutine (h : CoroutinesInOrder active m) (body : Val) :
    CoroutinesInOrder active (m.withCoroutine body) := by
  have hold : ∀ x ∈ active,
      (m.withCoroutine body).heap.coroutine x = m.heap.coroutine x := fun x hx => by
    rw [coroutine_withCoroutine, if_neg (Nat.ne_of_lt (h.lt_size hx))]
  refine ⟨h.distinct, h.current, fun x hx => ?_, fun x hx => ?_, fun x hx => ?_⟩
  · rw [hold x (List.mem_of_head? hx)]
    exact h.running x hx
  · rw [hold x (List.mem_of_mem_tail hx)]
    exact h.normal x hx
  · rw [coroutine_withCoroutine]
    split
    · exact .inl rfl
    · exact h.others x hx

/-- Steps on other objects. -/
theorem congr (h : CoroutinesInOrder active m)
    (hcoroutines : m'.heap.coroutines = m.heap.coroutines)
    (hcurrent : m'.thread.current = m.thread.current) : CoroutinesInOrder active m' := by
  have heq : ∀ x, m'.heap.coroutine x = m.heap.coroutine x := fun x => by
    rw [Heap.coroutine, hcoroutines]; rfl
  exact ⟨h.distinct, hcurrent.trans h.current, fun x hx => (heq x).trans (h.running x hx),
    fun x hx => (heq x).trans (h.normal x hx), fun x hx => by rw [heq]; exact h.others x hx⟩

end CoroutinesInOrder

/-! ## Along a run -/

/-- Watches the states of coroutines, some of which are to stay dead. -/
def Watch.states (dead : CoId → Prop) (alarm : M F S Unit) : Watch F S where
  within acts m := CoroutinesInOrder (resumes acts) m ∧ ∀ co, dead co → IsDead co m
  yields _ := True
  alarm := alarm

theorem IsDead.congr {m m' : Machine F S} {co : CoId} (h : IsDead co m)
    (hcoroutines : m'.heap.coroutines = m.heap.coroutines) : IsDead co m' := by
  unfold IsDead Heap.coroutine
  rw [hcoroutines]
  exact h

theorem Watch.states_congr {dead : CoId → Prop} {alarm : M F S Unit} {acts acts' : List Activity}
    {m m' : Machine F S} (h : (Watch.states dead alarm).within acts m)
    (hacts : resumes acts' = resumes acts) (hcoroutines : m'.heap.coroutines = m.heap.coroutines)
    (hcurrent : m'.thread.current = m.thread.current) :
    (Watch.states dead alarm).within acts' m' := by
  refine ⟨?_, fun co hco => (h.2 co hco).congr hcoroutines⟩
  rw [hacts]
  exact h.1.congr hcoroutines hcurrent

/-- A coroutine hands control back. -/
theorem Watch.states_turnedBack {dead : CoId → Prop} {alarm : M F S Unit} {acts : List Activity}
    {m m' : Machine F S} {co : CoId} {c : Coroutine}
    (h : (Watch.states dead alarm).within acts m)
    (h' : (Watch.states dead alarm).within (.resume co :: acts) m')
    (hc : c.status = .suspended ∨ c.status = .dead) :
    (Watch.states dead alarm).within acts
      (m'.turnedBack m.thread.current m.thread.boundaries co c) := by
  refine ⟨h.1.turnedBack h'.1 hc _, fun x hx => ?_⟩
  obtain ⟨hsize, hdead⟩ := h'.2 x hx
  refine ⟨by rw [turnedBack, size_turn, size_turn]; exact hsize, ?_⟩
  have hnot := h'.1.notMem_of_dead hdead
  have hne : co ≠ x := fun heq => hnot (heq ▸ List.mem_cons_self)
  have hcurrent : m.thread.current ≠ some x := fun hx =>
    hnot (List.mem_cons_of_mem _ (List.mem_of_head? (h.1.current.symm.trans hx)))
  rw [coroutine_turnedBack, if_neg fun hx => hne hx.1, if_neg fun hx => hcurrent hx.1, hdead]

/-- **The states of coroutines are kept.** -/
def Regime.states (dead : CoId → Prop) (alarm : M F S Unit) : Regime (Watch.states dead alarm) where
  inv := (Watch.states dead alarm).within
  lost _ _ _ := True
  permits _ _ := True
  within h := h
  quiet h hq := Watch.states_congr h rfl hq.coroutines hq.current
  lost_quiet _ _ := trivial
  host _ h := Watch.states_congr h rfl rfl rfl
  enter _ h _ := Watch.states_congr h rfl rfl rfl
  leave h := Watch.states_congr h rfl rfl rfl
  lost_leave _ := trivial
  enterBoundary h := Watch.states_congr h rfl rfl rfl
  leaveBoundary h := Watch.states_congr h rfl rfl rfl
  yield _ _ _ _ := trivial
  yieldNative _ _ _ _ := trivial
  permits_yield _ := trivial
  link _ _ := trivial
  permits_boundary := trivial
  permits_link _ := trivial
  create := by
    intro acts m body h
    refine ⟨h.1.withCoroutine body, fun co hco => ?_⟩
    obtain ⟨hsize, hdead⟩ := h.2 co hco
    refine ⟨by simp [withCoroutine]; omega, ?_⟩
    rw [coroutine_withCoroutine, if_neg (Nat.ne_of_lt hsize), hdead]
  resume := by
    intro acts m co h hco
    refine ⟨h.1.turnedTo hco, fun x hx => ?_⟩
    obtain ⟨hsize, hdead⟩ := h.2 x hx
    refine ⟨by rw [turnedTo, size_turn, size_turn]; exact hsize, ?_⟩
    have hne : co ≠ x := by
      rintro rfl
      rw [hdead] at hco
      cases hco
    have hcurrent : m.thread.current ≠ some x := fun hx =>
      h.1.notMem_of_dead hdead (List.mem_of_head? (h.1.current.symm.trans hx))
    rw [coroutine_turnedTo, if_neg fun hx => hcurrent hx.1, if_neg fun hx => hne hx.1, hdead]
  permits_resume := trivial
  returned h h' := Watch.states_turnedBack h h' (.inr rfl)
  yielded h h' _ := Watch.states_turnedBack h h' (.inl rfl)

/-- A machine that has not run is in order, if none of its coroutines is said to run. -/
theorem start_inOrder {heap : Heap F} (config : Config) (trace : Option (Array TraceEvent))
    (host : S) (h : ∀ co, (heap.coroutine co).status = .suspended ∨
      (heap.coroutine co).status = .dead) :
    CoroutinesInOrder [] (Machine.start heap config trace host) :=
  ⟨List.nodup_nil, rfl, nofun, nofun, fun co _ => h co⟩

/-- How a resume goes on after the body of the coroutine has ended in some way: it returns with
what the body ended with, and the coroutine is suspended if the body is, else dead. -/
def ResumeEnds (co : CoId) : EStateM.Result Unwind (Machine F S) Unit →
    EStateM.Result Unwind (Machine F S) Outcome → Prop
  | .ok () _, r => ∃ u, r = .ok .returned u ∧ u.heap.coroutine co = .dead
  | .error (.suspend s) _, r => ∃ u, r = .ok .yielded u ∧ u.heap.coroutine co = .suspended s.chain
  | .error (.fault f) _, r => ∃ u, r = .error (.fault f) u ∧ u.heap.coroutine co = .dead
  | .error e _, r => ∃ u, r = .error e u

section Run

variable [HostBody F S] [QuietHost F S]

theorem resume_ends (n : Nat) (window : View) (args : List Val) {acts : List Activity} {co : CoId}
    {m : Machine F S} (h : CoroutinesInOrder (resumes acts) m)
    (hco : (m.heap.coroutine co).status = .suspended) : ∃ t,
    ResumeEnds co
      (segment (perform n) window args (m.heap.coroutine co) { m.turnedTo co with trace := t })
      (resume (perform n) window co args m) := by
  let G : Regime (Watch.states (fun _ => False) (pure ()) : Watch F S) := .states _ _
  obtain ⟨t, ht⟩ := resume_eq args hco
  refine ⟨t, ?_⟩
  have hm : G.inv (.resume co :: acts) { m.turnedTo co with trace := t } :=
    G.quiet (G.resume ⟨h, nofun⟩ hco) (Still.ofTrace _ t).toUndisturbed
  have hrun := G.segment_agrees (G.perform_agrees (fun _ _ _ _ => trivial) n (.resume co :: acts)) window args
    (m.heap.coroutine co) _ hm
  -- the coroutine is the running one when its body ends, so its state is overwritten
  have hstate : ∀ u c, G.inv (.resume co :: acts) u →
      (u.turnedBack m.thread.current m.thread.boundaries co c).heap.coroutine co = c := by
    intro u c hu
    rw [coroutine_turnedBack, if_pos ⟨rfl, hu.1.lt_size List.mem_cons_self⟩]
  rw [ht, attempt_bind]
  cases hr : segment (perform n) window args (m.heap.coroutine co)
      { m.turnedTo co with trace := t } with
  | ok a u =>
    rw [hr] at hrun
    obtain ⟨t', h'⟩ := handBack_ok m.thread.current m.thread.boundaries co u
    exact ⟨_, h', hstate u _ hrun.2.1⟩
  | error e u =>
    rw [hr] at hrun
    cases e with
    | suspend s =>
      obtain ⟨t', h'⟩ := handBack_suspend m.thread.current m.thread.boundaries co u s
      exact ⟨_, h', hstate u _ hrun.2.1.1⟩
    | fault f =>
      obtain ⟨t', h'⟩ := handBack_fault m.thread.current m.thread.boundaries co u f
      exact ⟨_, h', hstate u _ hrun.2.2.1⟩
    | overflow =>
      obtain ⟨t', h'⟩ := handBack_throw m.thread.current m.thread.boundaries co u
        (e := .overflow) id
      exact ⟨_, h'⟩
    | exhausted =>
      obtain ⟨t', h'⟩ := handBack_throw m.thread.current m.thread.boundaries co u
        (e := .exhausted) id
      exact ⟨_, h'⟩

end Run

/-- **Coroutine states.** Whatever a run carries out from a machine in order: at every function
that it enters or leaves the coroutines are in order and those dead at first are still dead, as
no alarm is ever raised; and so they are in the end. A coroutine that is not suspended is not
resumed and nothing changes; one that is resumed ends as its body does. A call from outside
leaves no coroutine running or normal. -/
theorem coroutine_states (n : Nat) :
    (∀ acts request (m : Machine Empty PUnit), CoroutinesInOrder (resumes acts) m →
      (∀ alarm, (Watch.states (IsDead · m) alarm).perform n acts request m = perform n request m) ∧
      ∀ u, EndsIn (perform n request m) u →
        CoroutinesInOrder (resumes acts) u ∧ ∀ co, IsDead co m → IsDead co u) ∧
    (∀ window co args (m : Machine Empty PUnit), (m.heap.coroutine co).status ≠ .suspended →
      ∃ cause, resume (perform n) window co args m = .error (.fault (.coroutine cause)) m) ∧
    (∀ acts window co args (m : Machine Empty PUnit), CoroutinesInOrder (resumes acts) m →
      (m.heap.coroutine co).status = .suspended → ∃ t,
        ResumeEnds co
          (segment (perform n) window args (m.heap.coroutine co) { m.turnedTo co with trace := t })
          (resume (perform n) window co args m)) ∧
    ∀ target args (m : Machine Empty PUnit), CoroutinesInOrder [] m →
      (∀ alarm, callFromOutside ((Watch.states (IsDead · m) alarm).perform n []) target args m =
        callFromOutside (perform n) target args m) ∧
      ∀ u, EndsIn (callFromOutside (perform n) target args m) u →
        CoroutinesInOrder [] u ∧ (∀ co, IsDead co m → IsDead co u) ∧
          ∀ co, u.heap.coroutine co ≠ .running ∧ u.heap.coroutine co ≠ .normal := by
  refine ⟨fun acts request m hm => ?_, ?_, ?_, fun target args m hm => ?_⟩
  · have h := fun alarm => (Regime.states (IsDead · m) alarm).perform_agrees
      (fun _ _ _ _ => trivial) n acts request m ⟨hm, fun _ => id⟩
    exact ⟨fun alarm => (h alarm).eq fun _ => trivial,
      fun u hu => Regime.inv_of_meets _ (h (pure ())) hu⟩
  · exact fun window co args m hco => ⟨_, resume_refused (perform n) window args hco⟩
  · exact fun acts window co args m hm hco => resume_ends n window args hm hco
  · have h := fun alarm => (Regime.states (IsDead · m) alarm).outside_agrees
      ((Regime.states (IsDead · m) alarm).perform_agrees (fun _ _ _ _ => trivial) n [])
      (fun _ => trivial) target args m
      ⟨hm, fun _ => id⟩
    refine ⟨fun alarm => (h alarm).eq fun _ => trivial, fun u hu => ?_⟩
    obtain ⟨horder, hdead⟩ := Regime.inv_of_meets _ (h (pure ())) hu
    refine ⟨horder, hdead, fun co => ?_⟩
    have hco := horder.others co List.not_mem_nil
    constructor
    · intro h
      rw [h] at hco
      obtain hco | hco := hco <;> cases hco
    · intro h
      rw [h] at hco
      obtain hco | hco := hco <;> cases hco

end ScriptCore
