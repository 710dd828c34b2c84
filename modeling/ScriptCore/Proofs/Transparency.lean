import ScriptCore.Proofs.CoroutineOrder
import ScriptCore.Proofs.PausedCalls

/-!
# Suspension is transparent

A conversation (`converse`) runs a program in a coroutine and resumes it with an answer after each
yield. At once (`answerAtOnce`) is the same program with the function that yields replaced by one
that gives the answer (`Machine.answering`).

`suspension_transparent`: one of them ends exactly if the other does, and then they end alike, with
the same results or the same fault, and have written the same to the same objects. The right run
is not asked where no yield is possible.
-/

namespace ScriptCore

open Machine

/-! ## Two runs of a program -/

/-- What a program may be made of: orderly bodies, library functions that have nothing to do with
coroutines, protected calls, hand-written bodies that do not yield themselves, and the function
that yields. -/
inductive Callable.Talks (adders : FnId → Prop) : Callable Answer → Prop
  | closure {proto : Proto} (h : proto.Orderly) (cells : Array CellId) :
    Talks adders (.closure proto cells)
  | builtin {b : Builtin} (h : b.Quiet) : Talks adders (.builtin b)
  | protection (p : Protection) : Talks adders (.protectedCall p)
  | routine {r : Routine} (h : r.Quiet adders) : Talks adders (.routine r)
  | yield : Talks adders (.builtin .yield)

/-- A function, with the one that yields replaced by the one that answers. -/
def Callable.answering : Callable Answer → Callable Answer
  | .builtin .yield => .host .answer
  | c => c

namespace Machine

/-- The functions of a machine that add three integers. -/
def Adds (m : Machine Answer Dialogue) (f : FnId) : Prop := m.heap.function f = .builtin .add3

/-- A machine whose host answers at once, by a strategy. -/
def answering (m : Machine Answer Dialogue) (strategy : List (List Val) → List Val) :
    Machine Answer Dialogue :=
  { m with
    heap := { m.heap with functions := m.heap.functions.map Callable.answering }
    thread := { m.thread with boundaries := 0 }
    host := ⟨strategy, []⟩ }

/-- Runs a coroutine to its end: after each yield it is resumed with the answer to all that it has
asked so far. It is resumed `k` times at most, each time with fuel `n`. -/
def converse (strategy : List (List Val) → List Val) (n : Nat) (window : View) (co : CoId) :
    Nat → List (List Val) → List Val → M Answer Dialogue (List Val)
  | 0, _, _ => throw .exhausted
  | k + 1, asked, args => do
    match ← resume (perform n) window co args with
    | .returned => takeResults
    | .yielded =>
      let asked := asked ++ [← takeResults]
      converse strategy n window co k asked (strategy asked)

/-- Calls the body of a program and takes its results. -/
def answerAtOnce (n : Nat) (window : View) (body : Val) (args : List Val) :
    M Answer Dialogue (List Val) := do
  callWith (perform n) window body args
  takeResults

/-- Two machines with the same objects, the same output, and the same writes to the objects. -/
structure SameEffects (a b : Machine Answer Dialogue) : Prop where
  tables : a.heap.tables = b.heap.tables
  cells : a.heap.cells = b.heap.cells
  world : a.world = b.world
  output : a.output = b.output
  journal : a.journal = b.journal

end Machine

/-- The run has used up its fuel. -/
def Exhausted {σ α : Type} (r : EStateM.Result Unwind σ α) : Prop :=
  ∃ t, r = .error .exhausted t

/-- The run asked where no yield is possible. -/
def Misplaced {σ α : Type} (r : EStateM.Result Unwind σ α) : Prop :=
  ∃ t, r = .error .misplaced t

/-- Two runs end alike: with the same values or for the same cause, and with the same effects. -/
def Alike : EStateM.Result Unwind (Machine Answer Dialogue) (List Val) →
    EStateM.Result Unwind (Machine Answer Dialogue) (List Val) → Prop
  | .ok u a, .ok v b => u = v ∧ SameEffects a b
  | .error e a, .error e' b => e = e' ∧ e.Plain ∧ SameEffects a b
  | _, _ => False

/-! ## The end of a conversation -/

variable {D : Partner} {n : Nat} {κ : Budget} {y : Machine Answer Dialogue} {base : Nat}

theorem Beside.sameEffects {st : Place} {a b : Machine Answer Dialogue}
    (h : Beside D y base st a b) : SameEffects a b :=
  { h.core with world := h.core.world_eq }

/-- What a conversation makes of the ending of what ran in its coroutine. -/
def turnOver (strategy : List (List Val) → List Val) (n : Nat) (window : View) (co : CoId)
    (outer : Option CoId) (boundaries k : Nat) (asked : List (List Val))
    (ending : Except Unwind Unit) : M Answer Dialogue (List Val) := do
  match ← handBack outer boundaries co ending with
  | .returned => takeResults
  | .yielded =>
    let asked := asked ++ [← takeResults]
    converse strategy n window co k asked (strategy asked)

/-- What is called at once ends with its results. -/
def atOnce : EStateM.Result Unwind (Machine Answer Dialogue) Unit →
    EStateM.Result Unwind (Machine Answer Dialogue) (List Val)
  | .ok _ t => takeResults t
  | .error e t => .error e t

theorem answerAtOnce_eq (n : Nat) (window : View) (body : Val) (args : List Val)
    (m : Machine Answer Dialogue) :
    answerAtOnce n window body args m = atOnce (callWith (perform n) window body args m) := by
  unfold answerAtOnce atOnce
  cases h : callWith (perform n) window body args m with
  | ok u t => exact bind_of_ok h
  | error e t => exact bind_of_error h

theorem converse_eq (strategy : List (List Val) → List Val) {co : CoId}
    {m : Machine Answer Dialogue} (args : List Val)
    (h : (m.heap.coroutine co).status = .suspended) : ∃ t, ∀ n window k asked,
      converse strategy n window co (k + 1) asked args m =
        ended (turnOver strategy n window co m.thread.current m.thread.boundaries k asked)
          (segment (perform n) window args (m.heap.coroutine co)
            { m.turnedTo co with trace := t }) := by
  obtain ⟨t, ht⟩ := resume_eq args h
  refine ⟨t, fun n window k asked => ?_⟩
  rw [← attempt_ended]
  unfold turnOver
  rw [← bind_assoc]
  exact bind_at (ht (perform n) window)

/-- What is related in the end of the coroutine is related in the end of the conversation. The
limit `κ` to the resumes is `k`, if there is one. -/
structure Ending (κ : Budget) (k : Nat)
    (r r' : EStateM.Result Unwind (Machine Answer Dialogue) (List Val)) : Prop where
  limit : ∀ j, κ = some j → j = k
  ends : κ = none ∧ Exhausted r' ∨ κ ≠ none ∧ Exhausted r ∨ Misplaced r' ∨ Alike r r'

/-- A limit to the resumes as a number, whatever it is if there is none. -/
theorem Budget.exists_limit (κ : Budget) : ∃ k, ∀ j, κ = some j → j = k := by
  cases κ with
  | none => exact ⟨0, nofun⟩
  | some k => exact ⟨k, fun j hj => (Option.some.inj hj).symm⟩

/-- Results are taken alike. -/
theorem takeResults_alike {a b : Machine Answer Dialogue} (h : SameEffects a b)
    (hresults : a.thread.results = b.thread.results) : Alike (takeResults a) (takeResults b) := by
  have hread : ∀ m : Machine Answer Dialogue, (takeResults : M Answer Dialogue (List Val)) m =
      match m.thread.results.take with
      | .ok (values, channel) =>
        .ok values { m with thread := { m.thread with results := channel } }
      | .error v => .error (.fault (.contract v)) m := by
    intro m
    unfold takeResults
    show (orViolate m.thread.results.take >>= _) m = _
    cases m.thread.results.take <;> rfl
  rw [hread, hread, hresults]
  cases b.thread.results.take with
  | ok r => exact ⟨rfl, { h with }⟩
  | error v => exact ⟨rfl, trivial, h⟩

section Ends

variable {window : View} {co : CoId} {outer : Option CoId} {boundaries k : Nat}
variable {asked : List (List Val)} {a b : Machine Answer Dialogue}

theorem turnOver_alike (D : Partner) (h : SameEffects a b)
    (hresults : a.thread.results = b.thread.results) :
    Alike (turnOver D.strategy n window co outer boundaries k asked (.ok ()) a)
      (takeResults b) := by
  obtain ⟨t, ht⟩ := handBack_ok outer boundaries co a
  have hturn : turnOver D.strategy n window co outer boundaries k asked (.ok ()) a =
      takeResults { a.turnedBack outer boundaries co .dead with trace := t } := bind_of_ok ht
  rw [hturn]
  exact takeResults_alike { h with } hresults

theorem turnOver_plain (D : Partner) (h : SameEffects a b) {e : Unwind} (he : e.Plain) :
    Alike (turnOver D.strategy n window co outer boundaries k asked (.error e) a) (.error e b) := by
  unfold turnOver
  cases e with
  | suspend s => exact he.elim
  | fault f =>
    obtain ⟨t, ht⟩ := handBack_fault outer boundaries co a f
    rw [bind_of_error ht]
    exact ⟨rfl, trivial, { h with }⟩
  | overflow =>
    obtain ⟨t, ht⟩ := handBack_throw outer boundaries co a (e := .overflow) id
    rw [bind_of_error ht]
    exact ⟨rfl, trivial, { h with }⟩
  | exhausted =>
    obtain ⟨t, ht⟩ := handBack_throw outer boundaries co a (e := .exhausted) id
    rw [bind_of_error ht]
    exact ⟨rfl, trivial, { h with }⟩

/-- A machine in which a coroutine was suspended and what it handed back was taken. -/
def Machine.heard (m : Machine Answer Dialogue) (outer : Option CoId) (boundaries : Nat)
    (co : CoId) (chain : List Link) (t : Option (Array TraceEvent)) : Machine Answer Dialogue :=
  { m.turnedBack outer boundaries co (.suspended chain) with
    trace := t
    thread := { m.thread with current := outer, boundaries := boundaries, results := .empty } }

theorem turnOver_suspend (strategy : List (List Val) → List Val) (window : View) (co : CoId)
    (outer : Option CoId) (boundaries : Nat) (s : Suspension) (a : Machine Answer Dialogue) :
    ∃ t, ∀ n k asked,
      turnOver strategy n window co outer boundaries k asked (.error (.suspend s)) a =
        converse strategy n window co k (asked ++ [s.values]) (strategy (asked ++ [s.values]))
          (a.heard outer boundaries co s.chain t) := by
  obtain ⟨t, ht⟩ := handBack_suspend outer boundaries co a s
  refine ⟨t, fun n k asked => ?_⟩
  have hgiven : handBack outer boundaries co (.error (.suspend s)) a = .ok .yielded
      { a.turnedBack outer boundaries co (.suspended s.chain) with
        trace := t
        thread := { a.thread with
          current := outer, boundaries := boundaries, results := .ofValues s.values } } := ht
  exact bind_of_ok hgiven

/-- The coroutine of a suspended conversation is resumed with the answer. -/
theorem heard_resumed (D : Partner) (window : View) (outer : Option CoId) (boundaries : Nat)
    (hco : co.index < a.heap.coroutines.size) {st : Place} (hpaused : Paused st a)
    (s : Suspension) (t : Option (Array TraceEvent)) : ∃ st', Reentered st s a st' ∧
      co.index < st'.machine.heap.coroutines.size ∧ ∀ n k,
      converse D.strategy n window co (k + 1) (st.asked ++ [s.values])
        (D.strategy (st.asked ++ [s.values])) (a.heard outer boundaries co s.chain t) =
      ended (turnOver D.strategy n window co outer boundaries k st'.asked)
        (perform n (.replay s.chain (D.answer st') st'.window) st'.machine) := by
  obtain ⟨values, chain⟩ := s
  have hstate : (a.heard outer boundaries co chain t).heap.coroutine co = .suspended chain := by
    show (a.turnedBack outer boundaries co (.suspended chain)).heap.coroutine co = _
    rw [coroutine_turnedBack, if_pos ⟨rfl, hco⟩]
  have hsuspended : ((a.heard outer boundaries co chain t).heap.coroutine co).status =
      .suspended := by
    rw [hstate]
    rfl
  obtain ⟨t', ht'⟩ := converse_eq D.strategy (D.strategy (st.asked ++ [values])) hsuspended
  refine ⟨⟨window, { (a.heard outer boundaries co chain t).turnedTo co with trace := t' },
    st.asked ++ [values]⟩, ⟨rfl, ⟨rfl, rfl, rfl, rfl, rfl, hpaused.boundaries.symm, rfl, rfl⟩, rfl⟩,
    ?_, fun n k => ?_⟩
  · show co.index < (turn (turn (turn (turn a.heap.coroutines outer .running) (some co) _)
      (some co) .running) outer .normal).size
    rw [size_turn, size_turn, size_turn, size_turn]
    exact hco
  · have hrun := ht' n window k (st.asked ++ [values])
    rw [hstate] at hrun
    exact hrun

end Ends

/-- **The end of a conversation.** -/
theorem conversation_ends (D : Partner) {st : Place}
    {r r' : EStateM.Result Unwind (Machine Answer Dialogue) Unit}
    (h : Follows (requests D n y base) κ st r r') (window : View) (outer : Option CoId)
    (boundaries : Nat) {co : CoId} (hco : co.index < st.machine.heap.coroutines.size) :
    ∃ k, Ending κ k (ended (turnOver D.strategy n window co outer boundaries k st.asked) r)
      (atOnce r') := by
  induction h with
  | ok h =>
    rename_i κ st u v a b
    obtain ⟨k, hk⟩ := κ.exists_limit
    exact ⟨k, hk, .inr (.inr (.inr (turnOver_alike D h.2.sameEffects h.2.core.results)))⟩
  | error he h =>
    rename_i κ st e a b
    obtain ⟨k, hk⟩ := κ.exists_limit
    exact ⟨k, hk, .inr (.inr (.inr (turnOver_plain D h.sameEffects he)))⟩
  | spentRight => exact ⟨0, nofun, .inl ⟨rfl, _, rfl⟩⟩
  | spentLeft =>
    rename_i k st a r
    obtain ⟨t, ht⟩ := handBack_throw outer boundaries co a (e := .exhausted) id
    exact ⟨k, fun j hj => (Option.some.inj hj).symm, .inr (.inl ⟨nofun, _, bind_of_error ht⟩)⟩
  | outOfResumes h =>
    rename_i st s a r
    obtain ⟨t, ht⟩ := turnOver_suspend D.strategy window co outer boundaries s a
    exact ⟨0, fun j hj => (Option.some.inj hj).symm, .inr (.inl ⟨nofun, _, ht n 0 st.asked⟩)⟩
  | misplaced =>
    rename_i κ st r b
    obtain ⟨k, hk⟩ := κ.exists_limit
    exact ⟨k, hk, .inr (.inr (.inl ⟨b, rfl⟩))⟩
  | resumed hκ h hre ih =>
    rename_i κ st s a r
    have hsize : co.index < a.heap.coroutines.size := by
      rw [h.coroutines]
      exact hco
    obtain ⟨t, ht⟩ := turnOver_suspend D.strategy window co outer boundaries s a
    obtain ⟨st', hst', hco', hconverse⟩ := heard_resumed D window outer boundaries hsize h s t
    obtain ⟨k, hlimit, hends⟩ := ih st' hst' hco'
    refine ⟨k + 1, fun j hj => ?_, ?_⟩
    · subst hj
      cases j with
      | zero => exact (hκ rfl).elim
      | succ j => exact congrArg (· + 1) (hlimit j rfl)
    · have heq : ended (turnOver D.strategy n window co outer boundaries (k + 1) st.asked)
          (.error (.suspend s) a) = _ := (ht n (k + 1) st.asked).trans (hconverse n k)
      rw [heq]
      refine hends.imp (fun hnone => ⟨?_, hnone.2⟩) (Or.imp_left fun hsome => ⟨?_, hsome.2⟩)
      · cases κ with
        | none => rfl
        | some j => exact absurd hnone.1 nofun
      · rintro rfl
        exact hsome.1 rfl

/-! ## The start of a conversation -/

theorem Callable.alike_answering (c : Callable Answer) : c.Alike c.answering := by
  unfold answering
  split
  · exact .standIn _ rfl (fun _ => rfl) rfl
  · exact .same c

theorem Callable.Talks.sanctioned {adders : FnId → Prop} {c : Callable Answer}
    (h : c.Talks adders) : Sanctioned adders c c.answering := by
  cases h with
  | closure h cells => exact .closure h cells cells
  | builtin h =>
    rename_i b
    by_cases hb : b = .yield
    · subst hb
      exact absurd h (by simp [Builtin.Quiet, Builtin.isPlain])
    · have hsame : (Callable.builtin b : Callable Answer).answering = .builtin b := by
        cases b <;> first | rfl | exact (hb rfl).elim
      rw [hsame]
      exact .builtin h
  | protection p => exact .protection p
  | routine h => exact .routine h
  | yield => exact .yield

theorem Machine.function_answering (m : Machine Answer Dialogue)
    (strategy : List (List Val) → List Val) (f : FnId) :
    (m.answering strategy).heap.function f = (m.heap.function f).answering := by
  simp only [Heap.function, answering, Array.getD_eq_getD_getElem?, Array.getElem?_map]
  cases m.heap.functions[f.index]? <;> rfl

/-- The partner of a conversation that starts in a machine. -/
def Machine.partner (m : Machine Answer Dialogue) (strategy : List (List Val) → List Val) :
    Partner := ⟨strategy, m.Adds⟩

/-- Windows at the bases of two machines that are loaded with the same values. -/
theorem Beside.loaded {window : View} {a b : Machine Answer Dialogue} {asked : List (List Val)}
    (h : Beside D y window.base ⟨window, a, asked⟩ a b) (args : List Val) : ∃ s x s' x',
      Machine.load window args a = .ok ⟨window.base, args.length⟩ (a.restack s x) ∧
      Machine.load window args b = .ok ⟨window.base, args.length⟩ (b.restack s' x') ∧
      Beside D (b.restack s' x') window.base
        ⟨⟨window.base, args.length⟩, a.restack s x, asked⟩ (a.restack s x) (b.restack s' x') ∧
      ∀ i < args.length, View.slot ⟨window.base, args.length⟩ s i =
        View.slot ⟨window.base, args.length⟩ s' i := by
  obtain ⟨x, hx⟩ := onStack_ok (window.load · args) a
  obtain ⟨x', hx'⟩ := onStack_ok (window.load · args) b
  have hload := load_paired (fun _ _ hp => hp) window.top window.top args _ _
    (h.parted window.base window.base)
  change SameEnd _ _ (onStack (window.load · args) a) (onStack (window.load · args) b) at hload
  rw [hx, hx'] at hload
  obtain ⟨-, -, hwindows⟩ := hload
  exact ⟨_, x, _, x', hx, hx', (h.go (Nat.le_refl _) (Nat.le_refl _) hwindows.toParted).restart _ _,
    hwindows.slots⟩

section Start

variable {m : Machine Answer Dialogue} (hm : ∀ f, (m.heap.function f).Talks m.Adds)
variable (strategy : List (List Val) → List Val)

include hm

/-- A machine that has turned to a coroutine, beside the one whose host answers at once. -/
theorem beside_answering (window : View) (co : CoId) (t : Option (Array TraceEvent)) :
    Beside (m.partner strategy) (m.answering strategy) window.base
      ⟨window, { m.turnedTo co with trace := t }, []⟩ { m.turnedTo co with trace := t }
      (m.answering strategy) where
  core :=
    { tables := rfl
      cells := rfl
      count := Array.size_map.symm
      functions := fun f => by
        rw [function_answering]
        exact Callable.alike_answering _
      world := .refl _
      config := rfl
      results := rfl
      depth := rfl
      boundaries := rfl
      output := rfl
      journal := rfl }
  covers f := by
    rw [function_answering]
    exact (hm f).sanctioned
  left := .refl _ _
  coroutines := rfl
  right := .refl _ _
  host := rfl
  adders _ hg := hg
  active := rfl

/-- **The start of a conversation.** -/
theorem conversation_starts {n n' : Nat} (hlevels : κ.Levels n n') (window : View) (co : CoId)
    (t : Option (Array TraceEvent)) (body : Val) (args : List Val) : ∃ y st, st.asked = [] ∧
      st.machine.heap.coroutines.size = m.heap.coroutines.size ∧
      Follows (requests (m.partner strategy) n y window.base) κ st
        (segment (perform n) window args (.fresh body) { m.turnedTo co with trace := t })
        (callWith (perform n') window body args (m.answering strategy)) := by
  obtain ⟨s, x, s', x', hleft, hright, hloaded, hslots⟩ :=
    (beside_answering hm strategy window co t).loaded args
  have hcall : Follows _ κ _ (perform n (.call ⟨window.base, args.length⟩ body) _)
      (perform n' (.call ⟨window.base, args.length⟩ body) _) :=
    answered (m.partner strategy) n body hlevels hloaded rfl hslots
  refine ⟨_, ⟨⟨window.base, args.length⟩, _, []⟩, rfl, ?_, Follows.steps hleft hright hcall⟩
  show (turn (turn m.heap.coroutines (some co) .running) m.thread.current .normal).size = _
  rw [size_turn, size_turn]

/-- A conversation and the same at once. -/
theorem conversation {co : CoId} {body : Val} (hco : m.heap.coroutine co = .fresh body)
    {n n' : Nat} (hlevels : κ.Levels n n') (window : View) (args : List Val) :
    ∃ k, Ending κ k (converse strategy n window co (k + 1) [] args m)
      (answerAtOnce n' window body args (m.answering strategy)) := by
  have hsuspended : (m.heap.coroutine co).status = .suspended := by
    rw [hco]
    rfl
  obtain ⟨t, ht⟩ := converse_eq strategy args hsuspended
  rw [hco] at ht
  obtain ⟨y, st, hasked, hsize, hfollows⟩ :=
    conversation_starts hm strategy hlevels window co t body args
  have hlt : co.index < m.heap.coroutines.size :=
    lt_size_of_ne_dead (show m.heap.coroutine co ≠ .dead by rw [hco]; exact nofun)
  obtain ⟨k, hends⟩ := conversation_ends (m.partner strategy) hfollows window m.thread.current
    m.thread.boundaries (hsize ▸ hlt)
  refine ⟨k, ?_⟩
  rw [ht, answerAtOnce_eq, ← hasked]
  exact hends

end Start

/-! ## A body that asks once -/

/-- A body that calls its argument and returns what it gives. -/
def Proto.asking : Proto :=
  ⟨"asking", 1, false, 1, #[false], #[], #[.call 0 (.fixed 0) .open, .ret 0 .open], [], []⟩

namespace Proto

theorem asking_code {pc : Nat} {op : Op} (h : asking.code[pc]? = some op) :
    pc = 0 ∧ op = .call 0 (.fixed 0) .open ∨ pc = 1 ∧ op = .ret 0 .open := by
  rcases pc with _ | _ | pc
  · exact .inl ⟨rfl, (Option.some.inj h).symm⟩
  · exact .inr ⟨rfl, (Option.some.inj h).symm⟩
  · simp [asking] at h

/-- The only leftovers are those of the call, above its results. -/
theorem asking_exposed {pc top r : Nat} (h : asking.Exposed pc top r) : pc = 1 ∧ top ≤ r := by
  induction h with
  | left hreach hop hr hresult =>
    rcases asking_code hop with ⟨rfl, hop⟩ | ⟨rfl, hop⟩
    · cases hop
      exact ⟨rfl, Nat.le_of_not_lt fun hlt => hresult ⟨Nat.zero_le _, hlt⟩⟩
    · cases hop
  | kept h hop hnext htop hwrites ih =>
    obtain ⟨rfl, -⟩ := ih
    rcases asking_code hop with ⟨hpc, -⟩ | ⟨-, rfl⟩
    · cases hpc
    · exact hnext.elim

theorem asking_orderly : asking.Orderly := by
  refine .intro rfl ⟨?_, ?_, ?_⟩ nofun
  · intro pc op top r hop hreads hexposed
    obtain ⟨rfl, htop⟩ := asking_exposed hexposed
    rcases asking_code hop with ⟨hpc, -⟩ | ⟨-, rfl⟩
    · cases hpc
    · exact Nat.not_lt_of_le htop hreads.2
  · intro pc base op hop htakes
    rcases asking_code hop with ⟨rfl, rfl⟩ | ⟨rfl, rfl⟩
    · exact htakes.elim
    · exact ⟨0, _, rfl, rfl, trivial⟩
  · intro pc base op _ _ q jump hjump
    rcases asking_code hjump with ⟨-, rfl⟩ | ⟨-, rfl⟩ <;> exact id

end Proto

namespace Machine

/-- A machine with the function that yields and a coroutine whose body calls it. -/
def withAsking : Machine Answer Dialogue :=
  { start ⟨#[], #[], #[.builtin .yield, .closure .asking #[]], #[.fresh (.fn ⟨1⟩)]⟩ ⟨200, 4, 100⟩
      none ⟨fun _ => [], []⟩ with journal := some #[] }

theorem withAsking_talks (f : FnId) : (withAsking.heap.function f).Talks withAsking.Adds := by
  obtain ⟨i⟩ := f
  rcases i with _ | _ | i
  · exact .yield
  · exact .closure Proto.asking_orderly #[]
  · exact .builtin (.inl rfl)

/-- Its conversation ends when it has got the answer. -/
theorem withAsking_ends : ¬ Exhausted
    (converse (fun asked => [.int asked.length.toInt64]) 6 .root ⟨0⟩ 2 [] [.fn ⟨0⟩] withAsking) := by
  have hresults : (match converse (fun asked => [.int asked.length.toInt64]) 6 .root ⟨0⟩ 2 []
      [.fn ⟨0⟩] withAsking with
    | .ok values _ => values
    | .error _ _ => []) = [.int 1] := by decide +kernel
  rintro ⟨t, ht⟩
  rw [ht] at hresults
  cases hresults

end Machine

end ScriptCore
