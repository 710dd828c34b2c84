import ScriptCore.Proofs.Fuel
import ScriptCore.Proofs.SpelledOut

/-!
# Kindred machines

`Kindred` machines run a program and the same program spelled out. They have the same objects but
for the bodies of closures, coroutines in the same states, and the same counters, except that on the
right more calls may be in progress. `Serving` machines hold the same arguments in two windows as
well.

`Abides` compares two endings. Unless the right run was given up, the left one ends in the same way:
with results, or for a cause that is told in the same words but for the places of operations
(`Unwind.Restates`). Requests that hand over the same are carried out with such endings if `Mirrors`
holds; the proofs about functions take that for granted.
-/

namespace ScriptCore

open Machine

/-! ## Machines -/

/-- How many calls are in progress on the two sides, and how many may be. -/
structure Depths where
  left : Nat
  right : Nat
  limit : Nat
  le : left ≤ right

namespace Depths

/-- More calls in progress on the right. -/
def below (ds : Depths) (n : Nat) : Depths :=
  ⟨ds.left, ds.right + n, ds.limit, Nat.le_add_right_of_le ds.le⟩

/-- One more call in progress on both sides. -/
def entered (ds : Depths) : Depths :=
  ⟨ds.left + 1, ds.right + 1, ds.limit, Nat.succ_le_succ ds.le⟩

end Depths

/-- A machine that runs a program, and one that runs it spelled out and may have more calls in
progress. If they are `heard`, they have the same results as well. -/
structure Kindred (ds : Depths) (heard : Prop) (a b : Machine Empty PUnit) : Prop
    extends a.Kin b where
  results : heard → a.thread.results = b.thread.results
  leftDepth : a.thread.depth = ds.left
  rightDepth : b.thread.depth = ds.right
  limit : b.world.config.maxCallDepth = ds.limit
  inLimit : ds.right ≤ ds.limit
  boundaries : a.thread.boundaries = b.thread.boundaries
  current : a.thread.current = b.thread.current
  covers : Scope.spelling.Covers a b
  coroutineCount : a.heap.coroutines.size = b.heap.coroutines.size
  coroutines : ∀ co, Akin a b (a.heap.coroutine co) (b.heap.coroutine co)

/-- Kindred machines whose windows have the same live slots, and these hold values. -/
structure Serving (ds : Depths) (heard : Prop) (w w' : View) (a b : Machine Empty PUnit) : Prop
    extends Kindred ds heard a b where
  top : w.top = w'.top
  slots : ∀ i < w.top, w.slot a.thread.stack i = w'.slot b.thread.stack i
  plain : ∀ i < w.top, ∃ v, w.slot a.thread.stack i = .value v

/-- Where two runs are, with windows at two bases. In the right one operations have moved. -/
def Origin.spelling (cut : Nat → Bool) (bare : Nat → Prop) (heard : Prop)
    (a b : Machine Empty PUnit) (leftBase rightBase : Nat) : Origin Empty PUnit where
  left := a
  right := b
  leftBase := leftBase
  rightBase := rightBase
  scope := .spelling
  heard := heard
  shared _ := False
  renumber := spreadSegment cut
  plain := True
  bare := bare

variable {ds : Depths} {heard heard' : Prop} {w w' : View}

namespace Kindred

variable {a b a' b' : Machine Empty PUnit} {l r : Nat}
variable {cut : Nat → Bool} {bare : Nat → Prop}

theorem mono (h : Kindred ds heard a b) (hheard : heard' → heard) : Kindred ds heard' a b :=
  { h with results := fun h' => h.results (hheard h') }

theorem astray (h : Kindred ds heard a b) : Kindred ds False a b := h.mono False.elim

/-- Machines with the same results. -/
theorem hear (h : Kindred ds heard a b) (hresults : a.thread.results = b.thread.results) :
    Kindred ds heard' a b := { h with results := fun _ => hresults }

theorem parted (h : Kindred ds heard a b) : Parted (.spelling cut bare heard a b l r) a b where
  kin := h.toKin
  results := h.results
  left := .refl a
  right := .refl b
  leftKept := .refl _ _
  rightKept := .refl _ _
  covers := h.covers
  shared _ := False.elim

/-- Both machines go on. -/
theorem go (h : Kindred ds heard a b) (hp : Parted (.spelling cut bare heard a b l r) a' b') :
    Kindred ds heard a' b' where
  toKin := hp.kin
  results := hp.results
  leftDepth := hp.left.depth.trans h.leftDepth
  rightDepth := hp.right.depth.trans h.rightDepth
  limit := (congrArg Config.maxCallDepth hp.right.config).trans h.limit
  inLimit := h.inLimit
  boundaries := hp.left.boundaries.trans (h.boundaries.trans hp.right.boundaries.symm)
  current := hp.left.current.trans (h.current.trans hp.right.current.symm)
  covers := hp.covers
  coroutineCount := by
    rw [show a'.heap.coroutines = _ from hp.left.coroutines,
      show b'.heap.coroutines = _ from hp.right.coroutines]
    exact h.coroutineCount
  coroutines co := by
    have hleft : a'.heap.coroutine co = a.heap.coroutine co := by
      rw [Heap.coroutine, show a'.heap.coroutines = _ from hp.left.coroutines]
      rfl
    have hright : b'.heap.coroutine co = b.heap.coroutine co := by
      rw [Heap.coroutine, show b'.heap.coroutines = _ from hp.right.coroutines]
      rfl
    rw [hleft, hright]
    exact (h.coroutines co).mono hp.left.functions hp.right.functions

theorem closed (ds : Depths) (heard : Prop) : Closed (Kindred ds heard) where
  kin h := h.toKin
  steady {a b _ _} h ha hb hk hr :=
    h.go ((Parted.closed (.spelling (fun _ => false) (fun _ => False) heard a b 0 0)).steady
      h.parted ha hb hk hr)

theorem hears (ds : Depths) : Hears (Kindred ds True) := fun _ _ h => h.results trivial

theorem setTrace (h : Kindred ds heard a b) (t t' : Option (Array TraceEvent)) :
    Kindred ds heard { a with trace := t } { b with trace := t' } :=
  (closed ds heard).steady h (.ofTrace a t) (.ofTrace b t') { h.toKin with } id

/-- A function can be made on both sides. -/
theorem admits {c : Callable Empty} (hc : c.SpelledOut c) : Admits (Kindred ds heard) c c :=
  fun a b h =>
    have hp : Parted (.spelling (fun _ => false) (fun _ => False) heard a b 0 0) a b := h.parted
    h.go (hp.pushed (.same c) hc)

theorem windows (h : Serving ds heard w w' a b) :
    Windows (.spelling cut bare heard a b w.base w'.base) w.top a b :=
  { h.toKindred.parted with slots := h.slots, plain := fun _ => h.plain }

/-- Both machines go on to windows with the same live slots. -/
theorem serving (h : Kindred ds heard a b) {n : Nat}
    (hw : Windows (.spelling cut bare heard a b l r) n a' b') :
    Serving ds heard ⟨l, n⟩ ⟨r, n⟩ a' b' :=
  { h.go hw.toParted with
    top := rfl
    slots := hw.slots
    plain := hw.plain trivial }

end Kindred

namespace Serving

variable {a b : Machine Empty PUnit}

theorem closed (ds : Depths) (heard : Prop) (w w' : View) : Closed (Serving ds heard w w') where
  kin h := h.toKin
  steady h ha hb hk hr :=
    { (Kindred.closed ds heard).steady h.toKindred ha hb hk hr with
      top := h.top
      slots := by rw [ha.stack, hb.stack]; exact h.slots
      plain := by rw [ha.stack]; exact h.plain }

theorem shares (htop : w.top = w'.top) : Shares (Serving ds heard w w') w w' :=
  ⟨htop, fun h i hi => h.slots i hi⟩

theorem child (h : Serving ds heard w w' a b) (n : Nat) :
    Serving ds heard (w.child n) (w'.child n) a b :=
  { h.toKindred with
    top := congrArg (· - n) h.top
    slots := fun i hi => by
      have hin : n + i < w.top := Nat.add_lt_of_lt_sub' hi
      rw [View.child_slot, View.child_slot]
      exact h.slots (n + i) hin
    plain := fun i hi => by
      have hin : n + i < w.top := Nat.add_lt_of_lt_sub' hi
      rw [View.child_slot]
      exact h.plain (n + i) hin }

end Serving

/-! ## Endings -/

/-- The one of two runs that may end for want of fuel. -/
inductive Side
  | left
  | right

section Abides

variable {σ τ α β γ δ : Type} {E E' : Unwind → Unwind → σ → τ → Prop} {side : Side}

/-- One of two runs was given up: the right one at an overflow, or the one on this side for want of
fuel. -/
inductive Side.Spent : Side → EStateM.Result Unwind σ α → EStateM.Result Unwind τ β → Prop
  | overflow {side : Side} {r : EStateM.Result Unwind σ α} {b : τ} :
    Spent side r (.error .overflow b)
  | left {a : σ} {r' : EStateM.Result Unwind τ β} : Spent .left (.error .exhausted a) r'
  | right {r : EStateM.Result Unwind σ α} {b : τ} : Spent .right r (.error .exhausted b)

theorem Side.spent_exhausted (side : Side) (a : σ) (b : τ) :
    side.Spent (.error .exhausted a : EStateM.Result Unwind σ α)
      (.error .exhausted b : EStateM.Result Unwind τ β) := by
  cases side with
  | left => exact .left
  | right => exact .right

/-- A run that was given up stays so, whatever follows it. -/
theorem Side.Spent.bind {x : EStateM Unwind σ α} {y : EStateM Unwind τ β}
    {f : α → EStateM Unwind σ γ} {g : β → EStateM Unwind τ δ} {a : σ} {b : τ}
    (h : side.Spent (x a) (y b)) : side.Spent ((x >>= f) a) ((y >>= g) b) := by
  generalize hx : x a = r, hy : y b = r' at h
  cases h with
  | overflow =>
    rw [bind_of_error hy]
    exact .overflow
  | left =>
    rw [bind_of_error hx]
    exact .left
  | right =>
    rw [bind_of_error hy]
    exact .right

/-- Unless one of them was given up, both runs end with results, or both end early. -/
inductive Abides (side : Side) (E : Unwind → Unwind → σ → τ → Prop) (Q : α → β → σ → τ → Prop) :
    EStateM.Result Unwind σ α → EStateM.Result Unwind τ β → Prop
  | ok {u : α} {w : β} {a : σ} {b : τ} (h : Q u w a b) : Abides side E Q (.ok u a) (.ok w b)
  | error {e e' : Unwind} {a : σ} {b : τ} (h : E e e' a b) :
    Abides side E Q (.error e a) (.error e' b)
  | spent {r : EStateM.Result Unwind σ α} {r' : EStateM.Result Unwind τ β} (h : side.Spent r r') :
    Abides side E Q r r'

namespace Abides

variable {Q Q' : α → β → σ → τ → Prop} {W : γ → δ → σ → τ → Prop}

theorem bind {x : EStateM Unwind σ α} {y : EStateM Unwind τ β} {f : α → EStateM Unwind σ γ}
    {g : β → EStateM Unwind τ δ} {a : σ} {b : τ} (h : Abides side E Q (x a) (y b))
    (hf : ∀ u w a b, Q u w a b → Abides side E W (f u a) (g w b)) :
    Abides side E W ((x >>= f) a) ((y >>= g) b) := by
  generalize hx : x a = r, hy : y b = r' at h
  cases h with
  | ok h =>
    rw [bind_of_ok hx, bind_of_ok hy]
    exact hf _ _ _ _ h
  | error h =>
    rw [bind_of_error hx, bind_of_error hy]
    exact .error h
  | spent h =>
    subst hx hy
    exact .spent h.bind

/-- The rule of consequence. -/
theorem mono {r : EStateM.Result Unwind σ α} {r' : EStateM.Result Unwind τ β}
    (h : Abides side E Q r r') (hE : ∀ e e' a b, E e e' a b → E' e e' a b)
    (hQ : ∀ u w a b, Q u w a b → Q' u w a b) : Abides side E' Q' r r' := by
  cases h with
  | ok h => exact .ok (hQ _ _ _ _ h)
  | error h => exact .error (hE _ _ _ _ h)
  | spent h => exact .spent h

end Abides

/-- Steps that run in step. -/
theorem Paired.abides {F R : σ → τ → Prop} {Q : α → β → σ → τ → Prop} {x : EStateM Unwind σ α}
    {y : EStateM Unwind τ β} {a : σ} {b : τ} (h : Paired F R x y Q) (hab : R a b)
    (hE : ∀ f a b, F a b → E (.fault f) (.fault f) a b) : Abides side E Q (x a) (y b) := by
  have hends := h a b hab
  cases hx : x a with
  | ok u a' =>
    cases hy : y b with
    | ok w b' => rw [hx, hy] at hends; exact .ok hends
    | error e b' => rw [hx, hy] at hends; exact hends.elim
  | error e a' =>
    cases hy : y b with
    | ok w b' => rw [hx, hy] at hends; exact hends.elim
    | error e' b' =>
      rw [hx, hy] at hends
      obtain ⟨rfl, hown, hF⟩ := hends
      cases e with
      | exhausted => exact .spent (side.spent_exhausted a' b')
      | suspend s => exact hown.elim
      | fault f => exact .error (hE f _ _ hF)
      | overflow => exact .spent .overflow

end Abides

/-- Two causes of one kind. Suspensions yield the same values, and a failed append is told by the
place to which it has moved. -/
inductive Unwind.Restates : Unwind → Unwind → Prop
  | suspend {s s' : Suspension} (values : s.values = s'.values) :
    Restates (.suspend s) (.suspend s')
  | fault (f : Fault) : Restates (.fault f) (.fault f)
  | append {p q : Proto} {cut : Nat → Bool} (h : p.Spells cut q) (pc : Nat) :
    Restates (.fault (.contract (.appendTarget p.name pc)))
      (.fault (.contract (.appendTarget q.name (spread cut pc))))

/-- Two runs that have ended early. They are still kindred, and the frames that they have left by a
suspension fit together. -/
structure Fallen (ds : Depths) (e e' : Unwind) (a b : Machine Empty PUnit) : Prop
    extends Kindred ds False a b where
  restates : e.Restates e'
  threads : ∀ s s', e = .suspend s → e' = .suspend s' → Threaded a b s.chain s'.chain

theorem Fallen.ofFault {a b : Machine Empty PUnit} (h : Kindred ds heard a b) (f : Fault) :
    Fallen ds (.fault f) (.fault f) a b :=
  { h.astray with
    restates := .fault f
    threads := nofun }

section Steps

variable {α β γ δ : Type} {a b : Machine Empty PUnit} {side : Side}
variable {F R : Machine Empty PUnit → Machine Empty PUnit → Prop}
variable {Q : α → β → Machine Empty PUnit → Machine Empty PUnit → Prop}
variable {W : γ → δ → Machine Empty PUnit → Machine Empty PUnit → Prop}

/-- Steps that run in step on kindred machines, and what follows them. -/
theorem Paired.follow {x : M Empty PUnit α} {y : M Empty PUnit β} {f : α → M Empty PUnit γ}
    {g : β → M Empty PUnit δ} (hx : Paired F R x y Q) (h : R a b)
    (hF : ∀ a b, F a b → Kindred ds False a b)
    (hf : ∀ u w a b, Q u w a b → Abides side (Fallen ds) W (f u a) (g w b)) :
    Abides side (Fallen ds) W ((x >>= f) a) ((y >>= g) b) :=
  (hx.abides h fun f _ _ h => .ofFault (hF _ _ h) f).bind hf

/-- Steps that give results. -/
theorem Answers.abides {x y : M Empty PUnit Unit} (hx : Answers R x y) (h : R a b)
    (hR : ∀ a b, R a b → Kindred ds False a b) :
    Abides side (Fallen ds) (fun _ _ => Kindred ds True) (x a) (y b) :=
  (Paired.abides hx h fun f _ _ h => .ofFault (hR _ _ h) f).mono
    (fun _ _ _ _ h => h) fun _ _ _ _ h => (hR _ _ h.1).hear h.2.1

namespace Kindred

theorem after (h : Kindred ds heard a b) {x : M Empty PUnit α} {y : M Empty PUnit β}
    {f : α → M Empty PUnit γ} {g : β → M Empty PUnit δ}
    (hx : Paired (Kindred ds heard) (Kindred ds heard) x y Q)
    (hf : ∀ u w a b, Q u w a b → Abides side (Fallen ds) W (f u a) (g w b)) :
    Abides side (Fallen ds) W ((x >>= f) a) ((y >>= g) b) := hx.follow h (fun _ _ => astray) hf

/-- A step that runs in step, and what follows it. -/
theorem seq (h : Kindred ds heard a b) {x y : M Empty PUnit α} {f : α → M Empty PUnit γ}
    {g : α → M Empty PUnit δ} (hx : InStep (Kindred ds heard) Eq x y)
    (hf : ∀ u a b, Kindred ds heard a b → Abides side (Fallen ds) W (f u a) (g u b)) :
    Abides side (Fallen ds) W ((x >>= f) a) ((y >>= g) b) :=
  h.after hx fun u _ a b hab => hab.1 ▸ hf u a b hab.2

/-- A last step that runs in step. -/
theorem last (h : Kindred ds heard a b) {x y : M Empty PUnit α}
    (hx : InStep (Kindred ds heard) Eq x y) (hheard : heard' → heard) :
    Abides side (Fallen ds) (fun u w a b => u = w ∧ Kindred ds heard' a b) (x a) (y b) :=
  (hx.abides h fun f _ _ h => .ofFault h f).mono (fun _ _ _ _ h => h)
    fun _ _ _ _ h => ⟨h.1, h.2.mono hheard⟩

theorem answers (h : Kindred ds heard a b) {x y : M Empty PUnit Unit}
    (hx : Answers (Kindred ds heard) x y) :
    Abides side (Fallen ds) (fun _ _ => Kindred ds True) (x a) (y b) := hx.abides h fun _ _ => astray

/-- Values loaded into windows at any places. -/
theorem load (h : Kindred ds heard a b) (w w' : View) (values : List Val)
    {f : View → M Empty PUnit γ} {g : View → M Empty PUnit δ}
    (hf : ∀ w w' a b, Serving ds heard w w' a b → Abides side (Fallen ds) W (f w a) (g w' b)) :
    Abides side (Fallen ds) W ((Machine.load w values >>= f) a) ((Machine.load w' values >>= g) b) := by
  obtain ⟨base, m⟩ := w
  obtain ⟨base', m'⟩ := w'
  let o : Origin Empty PUnit := .spelling (fun _ => false) (fun _ => False) heard a b base base'
  refine (load_paired (o := o) (fun _ _ hp => hp) m m' values).follow h.parted
    (fun _ _ hp => (h.go hp).astray) fun u u' a' b' hloaded => ?_
  obtain ⟨rfl, rfl, hwindows⟩ := hloaded
  exact hf _ _ _ _ (h.serving hwindows)

end Kindred

namespace Serving

/-- A step that runs in step, and what follows it. -/
theorem seq (h : Serving ds heard w w' a b) {x y : M Empty PUnit α} {f : α → M Empty PUnit γ}
    {g : α → M Empty PUnit δ} (hx : InStep (Serving ds heard w w') Eq x y)
    (hf : ∀ u a b, Serving ds heard w w' a b → Abides side (Fallen ds) W (f u a) (g u b)) :
    Abides side (Fallen ds) W ((x >>= f) a) ((y >>= g) b) :=
  hx.follow h (fun _ _ h => h.toKindred.astray) fun u _ a b hab => hab.1 ▸ hf u a b hab.2

theorem answers (h : Serving ds heard w w' a b) {x y : M Empty PUnit Unit}
    (hx : Answers (Serving ds heard w w') x y) :
    Abides side (Fallen ds) (fun _ _ => Kindred ds True) (x a) (y b) :=
  hx.abides h fun _ _ h => h.toKindred.astray

end Serving

end Steps

/-! ## Requests -/

/-- At some depths, requests that hand over the same are carried out by `P` as by `P'`. -/
structure Mirrors (side : Side) (ds : Depths) (P P' : Perform Empty PUnit) : Prop where
  call : ∀ {heard : Prop} {w w' : View} {a b : Machine Empty PUnit} (target : Val),
    Serving ds heard w w' a b → Abides side (Fallen ds) (fun _ _ => Kindred ds True)
      (P (.call w target) a) (P' (.call w' target) b)
  replay : ∀ {heard : Prop} {links links' : List Link} {a b : Machine Empty PUnit}
    (values : List Val) (w w' : View), Kindred ds heard a b → Threaded a b links links' →
    Abides side (Fallen ds) (fun _ _ => Kindred ds True) (P (.replay links values w) a)
      (P' (.replay links' values w') b)

end ScriptCore
