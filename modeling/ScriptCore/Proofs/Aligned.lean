import ScriptCore.Proofs.Leftovers
import ScriptCore.Proofs.ResumptionChains
import ScriptCore.Proofs.Windows

/-!
# Runs that share what they may read

Two runs of one program may find different things in the result channel and on the stack, and
their windows may lie at different places. An `Overlap` says which slots they share, counted from
a base on each side. `Aligned` machines have the same objects, coroutines and counters and agree on
those slots; their channels need not be equal before something is written there.

`Concur` compares two endings. Where both runs end early they end for one reason, be it a
suspension with its chain, and are still aligned (`Astray`). Every step on windows and objects that
runs in step concurs (`Aligned.after`).
-/

namespace ScriptCore

open Machine

/-! ## Scripts and the library -/

/-- The functions of scripts and of the library; bodies take their spans where they are made. -/
def Callable.Standard : Callable Empty → Prop
  | .closure proto _ => proto.Valid
  | .routine _ => False
  | .builtin _ | .protectedCall _ | .wrapped _ | .host _ => True

theorem Callable.Standard.kept {c d : Callable Empty} (h : c.Standard) (k : c.Kept d) :
    d.Standard := by
  cases k <;> exact h

/-- The body of a closure. -/
def Callable.proto? {F : Type} : Callable F → Option Proto
  | .closure proto _ => some proto
  | _ => none

theorem Callable.Kept.proto?_eq {F : Type} {c d : Callable F} (h : c.Kept d) : d.proto? = c.proto? := by
  cases h <;> rfl

/-- The scope of scripts and of the library, with the same bodies in the same places. -/
def Scope.standard : Scope Empty where
  admits c d := c.Standard ∧ c.proto? = d.proto?
  kept h hc hd := ⟨h.1.kept hc, hc.proto?_eq.trans (h.2.trans hd.proto?_eq.symm)⟩

/-- Closures over the bodies nested in a valid body are in scope. -/
theorem Proto.Valid.nests {p : Proto} (h : p.Valid) : Scope.standard.Nests p p :=
  Scope.nests_self fun q hq _ => ⟨h.children q hq, rfl⟩

/-- Alike functions with the same body are the same. -/
theorem Callable.Alike.eq {c d : Callable Empty} (h : c.Alike d) (hbody : c.proto? = d.proto?) :
    c = d := by
  cases h with
  | same => rfl
  | bodies cells h =>
    obtain rfl := Option.some.inj hbody
    rfl
  | standIn h => exact h.elim

/-! ## Machines that agree on slots -/

/-- The slots that two stacks share: those at the given offsets from a base on each side. -/
structure Overlap where
  left : Nat
  right : Nat
  slots : Nat → Prop

namespace Overlap

/-- An overlap of more slots, counted from offset `d`. -/
def adding (v : Overlap) (d : Nat) (more : Nat → Prop) : Overlap :=
  { v with slots := fun i => v.slots i ∨ ∃ r, more r ∧ i = d + r }

/-- Two windows at offset `d`. -/
structure Based (v : Overlap) (d : Nat) (w w' : View) : Prop where
  left : w.base = v.left + d
  right : w'.base = v.right + d

/-- Two windows at offset `d` whose `n` live slots are shared. -/
structure Hands (v : Overlap) (d n : Nat) (w w' : View) : Prop where
  left : w = ⟨v.left + d, n⟩
  right : w' = ⟨v.right + d, n⟩
  live : ∀ i < n, v.slots (d + i)

section Windows

variable {v : Overlap} {d n : Nat} {w w' : View}

theorem Hands.based (h : v.Hands d n w w') : v.Based d w w' :=
  ⟨congrArg View.base h.left, congrArg View.base h.right⟩

theorem Hands.child (h : v.Hands d n w w') (k : Nat) :
    v.Hands (d + k) (n - k) (w.child k) (w'.child k) := by
  obtain ⟨rfl, rfl, hlive⟩ := h
  refine ⟨congrArg (View.mk · _) (Nat.add_assoc ..), congrArg (View.mk · _) (Nat.add_assoc ..),
    fun i hi => ?_⟩
  rw [Nat.add_assoc]
  exact hlive (k + i) (by omega)

end Windows

/-- Where two runs are at offset `d`. -/
def origin (v : Overlap) (d : Nat) (heard : Prop) (a b : Machine Empty PUnit) :
    Origin Empty PUnit where
  left := a
  right := b
  leftBase := v.left + d
  rightBase := v.right + d
  scope := .standard
  heard := heard
  shared i := v.slots (d + i)

end Overlap

/-- Two machines with the same objects, coroutines and counters that agree on the slots of an
overlap. If they are `heard`, they have the same results as well. -/
structure Aligned (v : Overlap) (heard : Prop) (a b : Machine Empty PUnit) : Prop
    extends a.Kin b where
  results : heard → a.thread.results = b.thread.results
  depth : a.thread.depth = b.thread.depth
  boundaries : a.thread.boundaries = b.thread.boundaries
  current : a.thread.current = b.thread.current
  coroutines : a.heap.coroutines = b.heap.coroutines
  standard : ∀ f, (a.heap.function f).Standard
  bodies : ∀ f, (a.heap.function f).proto? = (b.heap.function f).proto?
  chains : ChainsFit a
  slots : ∀ i, v.slots i →
    a.thread.stack.slot (v.left + i) = b.thread.stack.slot (v.right + i)

namespace Aligned

variable {v : Overlap} {heard heard' : Prop} {a b a' b' : Machine Empty PUnit} {d n : Nat}

theorem function_eq (h : Aligned v heard a b) (f : FnId) :
    a.heap.function f = b.heap.function f := (h.functions f).eq (h.bodies f)

theorem mono (h : Aligned v heard a b) (hheard : heard' → heard) : Aligned v heard' a b :=
  { h with results := fun h' => h.results (hheard h') }

/-- Machines with the same results. -/
theorem hear (h : Aligned v heard a b) (hresults : a.thread.results = b.thread.results) :
    Aligned v heard' a b := { h with results := fun _ => hresults }

theorem adding (h : Aligned v heard a b) {more : Nat → Prop} (hmore : ∀ r, more r →
    a.thread.stack.slot (v.left + d + r) = b.thread.stack.slot (v.right + d + r)) :
    Aligned (v.adding d more) heard a b where
  toKin := h.toKin
  results := h.results
  depth := h.depth
  boundaries := h.boundaries
  current := h.current
  coroutines := h.coroutines
  standard := h.standard
  bodies := h.bodies
  chains := h.chains
  slots i hi := by
    rcases hi with hi | ⟨r, hr, rfl⟩
    · exact h.slots i hi
    · have hslot := hmore r hr
      rw [Nat.add_assoc, Nat.add_assoc] at hslot
      exact hslot

theorem without {more : Nat → Prop} (h : Aligned (v.adding d more) heard a b) :
    Aligned v heard a b := { h with slots := fun i hi => h.slots i (.inl hi) }

/-- The slots that were added. -/
theorem added {more : Nat → Prop} (h : Aligned (v.adding d more) heard a b) {r : Nat}
    (hr : more r) : a.thread.stack.slot (v.left + d + r) = b.thread.stack.slot (v.right + d + r) := by
  rw [Nat.add_assoc, Nat.add_assoc]
  exact h.slots (d + r) (.inr ⟨r, hr, rfl⟩)

/-- Two aligned machines at offset `d`. -/
theorem parted (h : Aligned v heard a b) (d : Nat) : Parted (v.origin d heard a b) a b where
  kin := h.toKin
  results := h.results
  left := .refl a
  right := .refl b
  leftKept := .refl _ _
  rightKept := .refl _ _
  covers f := ⟨h.standard f, h.bodies f⟩
  shared i hi := by
    show a.thread.stack.slot (v.left + d + i) = b.thread.stack.slot (v.right + d + i)
    rw [Nat.add_assoc, Nat.add_assoc]
    exact h.slots (d + i) hi

/-- Both machines go on from offset `d`. -/
theorem go (h : Aligned v heard a b) (hp : Parted (v.origin d heard a b) a' b') :
    Aligned v heard a' b' where
  toKin := hp.kin
  results := hp.results
  depth := hp.left.depth.trans (h.depth.trans hp.right.depth.symm)
  boundaries := hp.left.boundaries.trans (h.boundaries.trans hp.right.boundaries.symm)
  current := hp.left.current.trans (h.current.trans hp.right.current.symm)
  coroutines := hp.left.coroutines.trans (h.coroutines.trans hp.right.coroutines.symm)
  standard f := (hp.covers f).1
  bodies f := (hp.covers f).2
  chains := h.chains.congr hp.left.coroutines hp.left.functions hp.left.config
    (hp.left.depth ▸ h.chains.depth)
  slots i hi := by
    rcases Nat.lt_or_ge i d with hid | hid
    · have hleft := hp.leftKept.slot (v.left + i) (Nat.add_lt_add_left hid _)
      have hright := hp.rightKept.slot (v.right + i) (Nat.add_lt_add_left hid _)
      rw [hleft, hright]
      exact h.slots i hi
    · obtain ⟨j, rfl⟩ := Nat.exists_eq_add_of_le hid
      rw [← Nat.add_assoc, ← Nat.add_assoc]
      exact hp.shared j hi

theorem closed (v : Overlap) (heard : Prop) : Closed (Aligned v heard) where
  kin h := h.toKin
  steady h ha hb hk hr := h.go ((Parted.closed (v.origin 0 heard _ _)).steady (h.parted 0) ha hb hk hr)

theorem hears (v : Overlap) : Hears (Aligned v True) := fun _ _ h => h.results trivial

theorem admits {c : Callable Empty} (hc : c.Standard) : Admits (Aligned v heard) c c :=
  fun _ _ h => h.go ((h.parted 0).pushed (.same c) (show Scope.standard.admits c c from ⟨hc, rfl⟩))

/-- The live slots of two windows are shared. -/
theorem shares {w w' : View} (hw : v.Hands d n w w') : Shares (Aligned v heard) w w' := by
  obtain ⟨rfl, rfl, hlive⟩ := hw
  refine ⟨rfl, fun h i hi => ?_⟩
  have hslot := h.slots (d + i) (hlive i hi)
  rw [← Nat.add_assoc, ← Nat.add_assoc] at hslot
  exact hslot

theorem windows (h : Aligned v heard a b) (hlive : ∀ i < n, v.slots (d + i)) :
    ScriptCore.Windows (v.origin d heard a b) n a b :=
  { h.parted d with
    slots := fun i hi => (h.parted d).shared i (hlive i hi)
    plain := False.elim }

theorem setTrace (h : Aligned v heard a b) (t t' : Option (Array TraceEvent)) :
    Aligned v heard { a with trace := t } { b with trace := t' } :=
  (closed v heard).steady h (.ofTrace a t) (.ofTrace b t') { h.toKin with } id

end Aligned

/-! ## Endings that concur -/

section Concur

variable {σ τ α β γ δ : Type} {E E' : Unwind → σ → τ → Prop}

/-- Two endings of the same kind: with results, or with one cause. -/
def Concur (E : Unwind → σ → τ → Prop) (Q : α → β → σ → τ → Prop) :
    EStateM.Result Unwind σ α → EStateM.Result Unwind τ β → Prop
  | .ok u a, .ok w b => Q u w a b
  | .error e a, .error e' b => e = e' ∧ E e a b
  | _, _ => False

namespace Concur

variable {Q Q' : α → β → σ → τ → Prop} {W : γ → δ → σ → τ → Prop}

theorem bind {x : EStateM Unwind σ α} {y : EStateM Unwind τ β} {f : α → EStateM Unwind σ γ}
    {g : β → EStateM Unwind τ δ} {a : σ} {b : τ} (h : Concur E Q (x a) (y b))
    (hf : ∀ u w a b, Q u w a b → Concur E W (f u a) (g w b)) :
    Concur E W ((x >>= f) a) ((y >>= g) b) := by
  show Concur E W (EStateM.bind x f a) (EStateM.bind y g b)
  unfold EStateM.bind
  cases hx : x a <;> cases hy : y b <;> rw [hx, hy] at h
  · exact hf _ _ _ _ h
  · exact h.elim
  · exact h.elim
  · exact h

/-- Steps that end well, and what follows them. -/
theorem steps {x : EStateM Unwind σ α} {y : EStateM Unwind τ β} {f : α → EStateM Unwind σ γ}
    {g : β → EStateM Unwind τ δ} {a a' : σ} {b b' : τ} {u : α} {w : β} (hx : x a = .ok u a')
    (hy : y b = .ok w b') (h : Concur E W (f u a') (g w b')) :
    Concur E W ((x >>= f) a) ((y >>= g) b) := by
  rw [bind_of_ok hx, bind_of_ok hy]
  exact h

/-- The rule of consequence. -/
theorem mono {r : EStateM.Result Unwind σ α} {r' : EStateM.Result Unwind τ β}
    (h : Concur E Q r r') (hE : ∀ e a b, E e a b → E' e a b)
    (hQ : ∀ u w a b, Q u w a b → Q' u w a b) : Concur E' Q' r r' := by
  cases r <;> cases r'
  · exact hQ _ _ _ _ h
  · exact h
  · exact h
  · exact ⟨h.1, hE _ _ _ h.2⟩

end Concur

/-- Steps that run in step concur. -/
theorem Paired.concur {F R : σ → τ → Prop} {Q : α → β → σ → τ → Prop} {x : EStateM Unwind σ α}
    {y : EStateM Unwind τ β} {a : σ} {b : τ} (h : Paired F R x y Q) (hab : R a b)
    (hE : ∀ e a b, e.Plain → F a b → E e a b) : Concur E Q (x a) (y b) := by
  have hends := h a b hab
  cases hx : x a <;> cases hy : y b <;> rw [hx, hy] at hends
  · exact hends
  · exact hends.elim
  · exact hends.elim
  · exact ⟨hends.1, hE _ _ _ hends.2.1.plain hends.2.2⟩

end Concur

/-- Two runs that have ended early are still aligned. -/
def Astray (v : Overlap) (_ : Unwind) (a b : Machine Empty PUnit) : Prop := Aligned v False a b

namespace Aligned

variable {v : Overlap} {heard heard' : Prop} {a b a' b' : Machine Empty PUnit}
variable {d n : Nat} {α β γ δ : Type}
variable {Q : α → β → Machine Empty PUnit → Machine Empty PUnit → Prop}
variable {W : γ → δ → Machine Empty PUnit → Machine Empty PUnit → Prop}

theorem astray (h : Aligned v heard a b) : Aligned v False a b := h.mono False.elim

/-- Steps that run in step, and what follows them. -/
theorem after (h : Aligned v heard a b) {x : M Empty PUnit α} {y : M Empty PUnit β}
    {f : α → M Empty PUnit γ} {g : β → M Empty PUnit δ}
    (hx : Paired (Aligned v heard) (Aligned v heard) x y Q)
    (hf : ∀ u w a b, Q u w a b → Concur (Astray v) W (f u a) (g w b)) :
    Concur (Astray v) W ((x >>= f) a) ((y >>= g) b) :=
  (hx.concur h fun _ _ _ _ h => h.astray).bind hf

/-- A step that runs in step, and what follows it. -/
theorem seq (h : Aligned v heard a b) {x y : M Empty PUnit α}
    {f : α → M Empty PUnit γ} {g : α → M Empty PUnit δ} (hx : InStep (Aligned v heard) Eq x y)
    (hf : ∀ u a b, Aligned v heard a b → Concur (Astray v) W (f u a) (g u b)) :
    Concur (Astray v) W ((x >>= f) a) ((y >>= g) b) :=
  h.after hx fun u _ a b hab => hab.1 ▸ hf u a b hab.2

/-- A last step that runs in step. -/
theorem last (h : Aligned v heard a b) {x y : M Empty PUnit α} (hx : InStep (Aligned v heard) Eq x y)
    (hheard : heard' → heard) :
    Concur (Astray v) (fun u w a b => u = w ∧ Aligned v heard' a b) (x a) (y b) :=
  (hx.concur h fun _ _ _ _ h => h.astray).mono (fun _ _ _ h => h)
    fun _ _ _ _ h => ⟨h.1, h.2.mono hheard⟩

/-- A last step that gives results. -/
theorem answers (h : Aligned v heard a b) {x y : M Empty PUnit Unit}
    (hx : Answers (Aligned v heard) x y) :
    Concur (Astray v) (fun _ _ => Aligned v True) (x a) (y b) :=
  (Paired.concur hx h fun _ _ _ _ h => h.astray).mono (fun _ _ _ h => h)
    fun _ _ _ _ h => h.1.hear h.2.1

/-- Steps on windows at offset `d`, and what follows them. -/
theorem afterWindows (h : Aligned v heard a b)
    (hab : ScriptCore.Windows (v.origin d heard a b) n a' b')
    {x : M Empty PUnit α} {y : M Empty PUnit β} {f : α → M Empty PUnit γ} {g : β → M Empty PUnit δ}
    (hx : Paired (Parted (v.origin d heard a b)) (ScriptCore.Windows (v.origin d heard a b) n) x y Q)
    (hf : ∀ u w a b, Q u w a b → Concur (Astray v) W (f u a) (g w b)) :
    Concur (Astray v) W ((x >>= f) a') ((y >>= g) b') :=
  (hx.concur hab fun _ _ _ _ hp => (h.go hp).astray).bind hf

/-- Values loaded into windows at offset `d` become shared slots there. -/
theorem load (h : Aligned v heard a b) {w w' : View} (hw : v.Based d w w') (values : List Val)
    {f : View → M Empty PUnit γ} {g : View → M Empty PUnit δ}
    (hf : ∀ w w' a b, v.Based d w w' →
      (v.adding d (· < values.length)).Hands d values.length w w' →
      Aligned (v.adding d (· < values.length)) heard a b →
      Concur (Astray v) W (f w a) (g w' b)) :
    Concur (Astray v) W ((Machine.load w values >>= f) a) ((Machine.load w' values >>= g) b) := by
  obtain ⟨base, m⟩ := w
  obtain ⟨base', m'⟩ := w'
  obtain ⟨rfl, rfl⟩ := hw
  refine h.afterWindows (n := 0) (h.windows nofun) (load_paired (o := v.origin d heard a b)
    (fun _ _ hp => hp.toParted) m m' values) fun u u' a' b' hloaded => ?_
  obtain ⟨rfl, rfl, hwindows⟩ := hloaded
  exact hf _ _ _ _ ⟨rfl, rfl⟩ ⟨rfl, rfl, fun i hi => .inr ⟨i, hi, rfl⟩⟩
    ((h.go hwindows.toParted).adding hwindows.slots)

end Aligned

end ScriptCore
