import ScriptCore.Proofs.Aligned
import ScriptCore.Proofs.Fuel

/-!
# Runs at another call depth

Of two machines one may have more calls in progress than the other. `Deeper g a b` says that `b` has
as many or more and is otherwise as `a`, on the stack from slot `g.base` on: their traces and what
they have on their stacks below may differ.

What runs on such machines reaches the limit of calls on the deeper one first. `Endures` compares
endings up to that: unless the deeper run is given up, the two concur.
-/

namespace ScriptCore

open Machine

/-- The scope of all functions, with the same bodies in the same places. -/
def Scope.bodies : Scope Empty where
  admits c d := c.proto? = d.proto?
  kept h hc hd := hc.proto?_eq.trans (h.trans hd.proto?_eq.symm)

/-! ## Machines -/

/-- How many calls are in progress on two machines, and from which slot on their stacks agree. -/
structure Gap where
  base : Nat
  left : Nat
  right : Nat
  le : left ≤ right

namespace Gap

/-- One more call is in progress on both machines. -/
def entered (g : Gap) : Gap := ⟨g.base, g.left + 1, g.right + 1, Nat.succ_le_succ g.le⟩

/-- One more call is in progress on the deeper machine. -/
def widened (g : Gap) : Gap := ⟨g.base, g.left, g.right + 1, Nat.le_succ_of_le g.le⟩

/-- The place from which two runs go on above slot `base`. -/
def origin (base : Nat) (a b : Machine Empty PUnit) : Origin Empty PUnit where
  left := a
  right := b
  leftBase := base
  rightBase := base
  scope := .bodies
  heard := True
  shared _ := True

end Gap

/-- Two machines that are the same but for the calls in progress, the slots below a base and the
trace. -/
structure Deeper (g : Gap) (a b : Machine Empty PUnit) : Prop extends a.Kin b where
  results : a.thread.results = b.thread.results
  left : a.thread.depth = g.left
  right : b.thread.depth = g.right
  boundaries : a.thread.boundaries = b.thread.boundaries
  current : a.thread.current = b.thread.current
  coroutines : a.heap.coroutines = b.heap.coroutines
  bodies : ∀ f, (a.heap.function f).proto? = (b.heap.function f).proto?
  slots : ∀ i, g.base ≤ i → a.thread.stack.slot i = b.thread.stack.slot i

namespace Deeper

variable {g : Gap} {a b a' b' : Machine Empty PUnit} {base n : Nat}

theorem refl (base : Nat) (m : Machine Empty PUnit) :
    Deeper ⟨base, m.thread.depth, m.thread.depth, Nat.le_refl _⟩ m m :=
  { Kin.refl m with
    results := rfl
    left := rfl
    right := rfl
    boundaries := rfl
    current := rfl
    coroutines := rfl
    bodies := fun _ => rfl
    slots := fun _ _ => rfl }

theorem function_eq (h : Deeper g a b) (f : FnId) : a.heap.function f = b.heap.function f :=
  (h.functions f).eq (h.bodies f)

theorem coroutine_eq (h : Deeper g a b) (co : CoId) :
    a.heap.coroutine co = b.heap.coroutine co := by
  rw [Heap.coroutine, h.coroutines]
  rfl

/-- Two machines as they stand, above a slot. -/
theorem parted (h : Deeper g a b) (hbase : g.base ≤ base) : Parted (Gap.origin base a b) a b where
  kin := h.toKin
  results _ := h.results
  left := .refl a
  right := .refl b
  leftKept := .refl _ _
  rightKept := .refl _ _
  covers := h.bodies
  shared i _ := h.slots (base + i) (Nat.le_add_right_of_le hbase)

/-- Both machines go on above a slot. -/
theorem go (h : Deeper g a b) (hp : Parted (Gap.origin base a b) a' b') : Deeper g a' b' where
  toKin := hp.kin
  results := hp.results trivial
  left := hp.left.depth.trans h.left
  right := hp.right.depth.trans h.right
  boundaries := hp.left.boundaries.trans (h.boundaries.trans hp.right.boundaries.symm)
  current := hp.left.current.trans (h.current.trans hp.right.current.symm)
  coroutines := hp.left.coroutines.trans (h.coroutines.trans hp.right.coroutines.symm)
  bodies := hp.covers
  slots i hi := by
    obtain hlt | hge := Nat.lt_or_ge i base
    · rw [hp.leftKept.slot i hlt, hp.rightKept.slot i hlt]
      exact h.slots i hi
    · obtain ⟨j, rfl⟩ := Nat.exists_eq_add_of_le hge
      exact hp.shared j trivial

theorem closed (g : Gap) : Closed (Deeper g) where
  kin h := h.toKin
  steady h ha hb hk hr := h.go ((Parted.closed (Gap.origin g.base _ _)).steady
    (h.parted (Nat.le_refl _)) ha hb hk hr)

theorem hears (g : Gap) : Hears (Deeper g) := fun _ _ h => h.results

theorem admits (g : Gap) (c : Callable Empty) : Admits (Deeper g) c c := fun _ _ h =>
  h.go ((h.parted (Nat.le_refl _)).pushed (.same c) (rfl : c.proto? = c.proto?))

/-- A window above the base has the same slots on both machines. -/
theorem shares {w : View} (hw : g.base ≤ w.base) : Shares (Deeper g) w w :=
  ⟨rfl, fun h i _ => h.slots (w.base + i) (Nat.le_add_right_of_le hw)⟩

theorem windows (h : Deeper g a b) (hbase : g.base ≤ base) (n : Nat) :
    ScriptCore.Windows (Gap.origin base a b) n a b :=
  { h.parted hbase with
    slots := fun i _ => (h.parted hbase).shared i trivial
    plain := False.elim }

theorem setTrace (h : Deeper g a b) (t t' : Option (Array TraceEvent)) :
    Deeper g { a with trace := t } { b with trace := t' } :=
  (closed g).steady h (.ofTrace a t) (.ofTrace b t') { h.toKin with } id

/-! ### Calls in progress and coroutines -/

theorem entered (h : Deeper g a b) : Deeper g.entered (entered a) (entered b) :=
  { h with
    left := congrArg (· + 1) h.left
    right := congrArg (· + 1) h.right }

theorem leave (h : Deeper g.entered a b) : Deeper g (leave a) (leave b) :=
  { h with
    left := congrArg (· - 1) h.left
    right := congrArg (· - 1) h.right }

theorem enteredRight (h : Deeper g a b) : Deeper g.widened a (Machine.entered b) :=
  { h with right := congrArg (· + 1) h.right }

theorem leaveRight (h : Deeper g.widened a b) : Deeper g a (Machine.leave b) :=
  { h with right := congrArg (· - 1) h.right }

theorem bounded (h : Deeper g a b) : Deeper g (bounded a) (bounded b) :=
  { h with boundaries := congrArg (· + 1) h.boundaries }

theorem leaveBoundary (h : Deeper g a b) : Deeper g (leaveBoundary a) (leaveBoundary b) :=
  { h with boundaries := congrArg (· - 1) h.boundaries }

theorem withCoroutine (h : Deeper g a b) (body : Val) :
    Deeper g (a.withCoroutine body) (b.withCoroutine body) :=
  { h with coroutines := congrArg (·.push (.fresh body)) h.coroutines }

theorem escorts (g : Gap) : Escorts (Deeper g) where
  count h := congrArg Array.size h.coroutines
  status h co := congrArg Coroutine.status (h.coroutine_eq co)
  current h := h.current
  boundaries h := h.boundaries
  create h body := h.withCoroutine body
  wrap co := admits g (.wrapped co)

theorem turnedTo (h : Deeper g a b) (co : CoId) : Deeper g (a.turnedTo co) (b.turnedTo co) :=
  { h with
    boundaries := rfl
    current := rfl
    coroutines := by
      show turn (turn a.heap.coroutines _ _) a.thread.current _ = _
      rw [h.coroutines, h.current]
      rfl }

theorem returnedTo (h : Deeper g a b) (outer : Option CoId) (boundaries : Nat) :
    Deeper g (a.returnedTo outer boundaries) (b.returnedTo outer boundaries) :=
  { h with
    boundaries := rfl
    current := rfl
    coroutines := congrArg (turn · outer .running) h.coroutines }

theorem turnedBack (h : Deeper g a b) (outer : Option CoId) (boundaries : Nat) (co : CoId)
    (c : Coroutine) :
    Deeper g (a.turnedBack outer boundaries co c) (b.turnedBack outer boundaries co c) :=
  { h with
    boundaries := rfl
    current := rfl
    coroutines := congrArg (fun cs => turn (turn cs outer .running) (some co) c) h.coroutines }

end Deeper

/-! ## Endings -/

/-- A run ends early as one that is given up at its stack overflow. -/
def Unwind.Halts (e : Unwind) : Prop := e.halted = .overflow

section Endures

variable {σ τ α β γ δ : Type} {stop : Unwind → Prop} {E E' : Unwind → σ → τ → Prop}

/-- Unless the right run ends early for a cause to stop, the two runs concur. -/
def Endures (stop : Unwind → Prop) (E : Unwind → σ → τ → Prop) (Q : α → β → σ → τ → Prop)
    (r : EStateM.Result Unwind σ α) (r' : EStateM.Result Unwind τ β) : Prop :=
  (∃ e t, r' = .error e t ∧ stop e) ∨ Concur E Q r r'

namespace Endures

variable {Q Q' : α → β → σ → τ → Prop} {W : γ → δ → σ → τ → Prop}
variable {x : EStateM Unwind σ α} {y : EStateM Unwind τ β} {a a' : σ} {b b' : τ}

theorem stopped {e : Unwind} {r : EStateM.Result Unwind σ α} (he : stop e) (t : τ) :
    Endures stop E Q r (.error e t) := .inl ⟨e, t, rfl, he⟩

theorem ok {u : α} {w : β} (h : Q u w a b) : Endures stop E Q (.ok u a) (.ok w b) := .inr h

theorem error {e : Unwind} (h : E e a b) :
    Endures stop E Q (.error e a : EStateM.Result Unwind σ α) (.error e b) := .inr ⟨rfl, h⟩

theorem bind {f : α → EStateM Unwind σ γ} {g : β → EStateM Unwind τ δ}
    (h : Endures stop E Q (x a) (y b))
    (hf : ∀ u w a b, Q u w a b → Endures stop E W (f u a) (g w b)) :
    Endures stop E W ((x >>= f) a) ((y >>= g) b) := by
  obtain ⟨e, t, ht, he⟩ | h := h
  · exact .inl ⟨e, t, bind_of_error ht, he⟩
  · cases hx : x a <;> cases hy : y b <;> rw [hx, hy] at h
    · rw [bind_of_ok hx, bind_of_ok hy]
      exact hf _ _ _ _ h
    · exact h.elim
    · exact h.elim
    · rw [bind_of_error hx, bind_of_error hy]
      exact .inr h

/-- Steps that end well, and what follows them. -/
theorem steps {f : α → EStateM Unwind σ γ} {g : β → EStateM Unwind τ δ} {u : α} {w : β}
    (hx : x a = .ok u a') (hy : y b = .ok w b') (h : Endures stop E W (f u a') (g w b')) :
    Endures stop E W ((x >>= f) a) ((y >>= g) b) := by
  rw [bind_of_ok hx, bind_of_ok hy]
  exact h

/-- The rule of consequence. -/
theorem mono {stop' : Unwind → Prop} {r : EStateM.Result Unwind σ α}
    {r' : EStateM.Result Unwind τ β} (h : Endures stop E Q r r') (hstop : ∀ e, stop e → stop' e)
    (hE : ∀ e a b, E e a b → E' e a b) (hQ : ∀ u w a b, Q u w a b → Q' u w a b) :
    Endures stop' E' Q' r r' :=
  h.imp (fun ⟨e, t, ht, he⟩ => ⟨e, t, ht, hstop e he⟩) fun h => h.mono hE hQ

/-- What follows on the right, and ends well. -/
theorem endsRight {r : EStateM.Result Unwind σ α} {f : β → EStateM Unwind τ δ}
    {W : α → δ → σ → τ → Prop} (h : Endures stop E Q r (y b))
    (hf : ∀ u w a b, Q u w a b → ∃ v c, f w b = .ok v c ∧ W u v a c) :
    Endures stop E W r ((y >>= f) b) := by
  obtain ⟨e, t, ht, he⟩ | h := h
  · exact .inl ⟨e, t, bind_of_error ht, he⟩
  · cases r <;> cases hy : y b <;> rw [hy] at h
    · obtain ⟨v, c, hv, hW⟩ := hf _ _ _ _ h
      rw [bind_of_ok hy, hv]
      exact .ok hW
    · exact h.elim
    · exact h.elim
    · rw [bind_of_error hy]
      exact .inr h

/-- Where the right run has ended. -/
theorem reached {r : EStateM.Result Unwind σ α} {r' : EStateM.Result Unwind τ β}
    (h : Endures stop E Q r r') :
    Endures stop E (fun u w a b => Q u w a b ∧ r' = .ok w b) r r' := by
  refine h.imp id fun h => ?_
  cases r <;> cases r'
  · exact ⟨h, rfl⟩
  · exact h.elim
  · exact h.elim
  · exact h

/-- A right run that is given up at stack overflows. -/
theorem haltingRight {r : EStateM.Result Unwind σ α} (h : Endures Unwind.Halts E Q r (y b)) :
    Endures (· = .overflow) (fun e a b => e.halted = e ∧ E e a b) Q r
      (ScriptCore.halting y b) := by
  obtain ⟨e, t, ht, he⟩ | h := h
  · exact .inl ⟨_, t, halting_of_error ht, he⟩
  · cases r <;> cases hy : y b <;> rw [hy] at h
    case ok.ok =>
      rw [halting_of_ok hy]
      exact .ok h
    case ok.error => exact h.elim
    case error.ok => exact h.elim
    case error.error e _ _ _ =>
      obtain ⟨rfl, h⟩ := h
      rw [halting_of_error hy]
      obtain ⟨_, -, he⟩ | he := e.halted_cases
      · exact .inl ⟨_, _, rfl, he⟩
      · rw [he]
        exact .error ⟨he, h⟩

/-- Runs that are given up at stack overflows. -/
theorem halting (h : Endures Unwind.Halts E Q (x a) (y b)) :
    Endures (· = .overflow) E Q (halting x a) (halting y b) := by
  refine h.haltingRight.imp id fun h => ?_
  cases hx : x a <;> cases hy : ScriptCore.halting y b <;> rw [hx, hy] at h
  · rw [halting_of_ok hx]
    exact h
  · exact h.elim
  · exact h.elim
  · obtain ⟨rfl, he, h⟩ := h
    rw [halting_of_error hx, he]
    exact ⟨rfl, h⟩

end Endures

/-- What is made of the endings of two attempts; giving up is passed on. -/
theorem Endures.attempt {E' E : Unwind → Machine Empty PUnit → Machine Empty PUnit → Prop}
    {Q : α → β → Machine Empty PUnit → Machine Empty PUnit → Prop}
    {W : γ → δ → Machine Empty PUnit → Machine Empty PUnit → Prop} {x : M Empty PUnit α}
    {y : M Empty PUnit β} {k : Except Unwind α → M Empty PUnit γ}
    {l : Except Unwind β → M Empty PUnit δ} {a b : Machine Empty PUnit}
    (h : Endures (· = .overflow) E' Q (x a) (y b))
    (hok : ∀ u w a b, Q u w a b → Endures (· = .overflow) E W (k (.ok u) a) (l (.ok w) b))
    (herror : ∀ e a b, E' e a b →
      Endures (· = .overflow) E W (k (.error e) a) (l (.error e) b))
    (hpasses : Limit.Passes l) :
    Endures (· = .overflow) E W ((attempt x >>= k) a) ((attempt y >>= l) b) := by
  rw [attempt_ended, attempt_ended]
  obtain ⟨_, t, ht, rfl⟩ | h := h
  · obtain ⟨t', ht'⟩ := hpasses .depth t
    rw [ht]
    exact .inl ⟨_, t', ht', rfl⟩
  · cases hx : x a <;> cases hy : y b <;> rw [hx, hy] at h
    · exact hok _ _ _ _ h
    · exact h.elim
    · exact h.elim
    · exact h.1 ▸ herror _ _ _ h.2

end Endures

namespace Deeper

variable {g : Gap} {a b a' b' : Machine Empty PUnit} {stop : Unwind → Prop} {α β γ δ : Type}
variable {Q : α → β → Machine Empty PUnit → Machine Empty PUnit → Prop}
variable {W : γ → δ → Machine Empty PUnit → Machine Empty PUnit → Prop}

/-- Steps that run in step, and what follows them. -/
theorem after (h : Deeper g a b) {x : M Empty PUnit α} {y : M Empty PUnit β}
    {k : α → M Empty PUnit γ} {l : β → M Empty PUnit δ}
    (hx : Paired (Deeper g) (Deeper g) x y Q)
    (hk : ∀ u w a b, Q u w a b → Endures stop (fun _ => Deeper g) W (k u a) (l w b)) :
    Endures stop (fun _ => Deeper g) W ((x >>= k) a) ((y >>= l) b) :=
  Endures.bind (.inr (hx.concur h fun _ _ _ _ h => h)) hk

/-- A step that runs in step, and what follows it. -/
theorem seq (h : Deeper g a b) {x y : M Empty PUnit α} {k : α → M Empty PUnit γ}
    {l : α → M Empty PUnit δ} (hx : InStep (Deeper g) Eq x y)
    (hk : ∀ u a b, Deeper g a b → Endures stop (fun _ => Deeper g) W (k u a) (l u b)) :
    Endures stop (fun _ => Deeper g) W ((x >>= k) a) ((y >>= l) b) :=
  h.after hx fun u _ a b hab => hab.1 ▸ hk u a b hab.2

/-- A last step that runs in step. -/
theorem last (h : Deeper g a b) {x y : M Empty PUnit α} (hx : InStep (Deeper g) Eq x y) :
    Endures stop (fun _ => Deeper g) (fun u w a b => u = w ∧ Deeper g a b) (x a) (y b) :=
  .inr (hx.concur h fun _ _ _ _ h => h)

/-- A last step without a value. -/
theorem ends (h : Deeper g a b) {x y : M Empty PUnit Unit} (hx : InStep (Deeper g) Eq x y) :
    Endures stop (fun _ => Deeper g) (fun _ _ => Deeper g) (x a) (y b) :=
  (h.last hx).mono (fun _ h => h) (fun _ _ _ h => h) fun _ _ _ _ h => h.2

/-- Library functions leave values as results. -/
theorem answers (h : Deeper g a b) {x y : M Empty PUnit Unit} (hx : Answers (Deeper g) x y) :
    Endures stop (fun _ => Deeper g) (fun _ _ a b => Deeper g a b ∧ a.thread.results.Settled)
      (x a) (y b) :=
  .inr ((Paired.concur hx h fun _ _ _ _ h => h).mono (fun _ _ _ h => h)
    fun _ _ _ _ h => ⟨h.1, h.2.2⟩)

/-- Steps on windows above a slot, and what follows them. -/
theorem afterWindows (h : Deeper g a b) {base n : Nat} (hbase : g.base ≤ base)
    {x : M Empty PUnit α} {y : M Empty PUnit β} {k : α → M Empty PUnit γ} {l : β → M Empty PUnit δ}
    (hx : Paired (Parted (Gap.origin base a b)) (ScriptCore.Windows (Gap.origin base a b) n) x y Q)
    (hk : ∀ u w a b, Q u w a b → Endures stop (fun _ => Deeper g) W (k u a) (l w b)) :
    Endures stop (fun _ => Deeper g) W ((x >>= k) a) ((y >>= l) b) :=
  Endures.bind (.inr (hx.concur (h.windows hbase n) fun _ _ _ _ hp => h.go hp)) hk

/-- Values that are loaded into a window. -/
theorem load (h : Deeper g a b) {w : View} (hw : g.base ≤ w.base) (values : List Val)
    {k l : View → M Empty PUnit γ} {W : γ → γ → Machine Empty PUnit → Machine Empty PUnit → Prop}
    (hk : ∀ a b, Deeper g a b →
      Endures stop (fun _ => Deeper g) W (k ⟨w.base, values.length⟩ a)
        (l ⟨w.base, values.length⟩ b)) :
    Endures stop (fun _ => Deeper g) W ((Machine.load w values >>= k) a)
      ((Machine.load w values >>= l) b) := by
  obtain ⟨base, m⟩ := w
  refine h.afterWindows (n := 0) hw (load_paired (o := Gap.origin base a b)
    (fun _ _ hp => hp.toParted) m m values) fun u u' a' b' hloaded => ?_
  obtain ⟨rfl, rfl, hwindows⟩ := hloaded
  exact hk _ _ (h.go hwindows.toParted)

end Deeper

end ScriptCore
