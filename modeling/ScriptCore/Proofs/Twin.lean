import ScriptCore.Proofs.Natives
import ScriptCore.Proofs.Turn

/-!
# Two activations of one body

Two activations of one body may lie at different places of their stacks and may differ in slots
that the body does not read. `Twin o K f` relates them: they have the frame `f` but for its base,
and equal slots at every register of the set `K`. A step of the body that reads only registers of
`K` runs in step on both sides, and what it writes joins `K` (`prepare_paired`,
`complete_paired`). The right one may run another form of the body, with its segments numbered
anew (`Origin.renumber`).

`Parted` keeps what holds on each side by itself: since the origin `o`, nothing below the base
was changed and nothing but objects and results was disturbed.
-/

namespace ScriptCore

/-- A frame at another place of the stack. -/
def Frame.placed (f : Frame) (base : Nat) : Frame := { f with view := ⟨base, f.view.top⟩ }

@[simp] theorem Frame.placed_base (f : Frame) (base : Nat) : (f.placed base).view.base = base := rfl

@[simp] theorem Frame.placed_top (f : Frame) (base : Nat) :
    (f.placed base).view.top = f.view.top := rfl

/-- A frame with `n` live slots. -/
def Frame.withTop (f : Frame) (n : Nat) : Frame := { f with view := ⟨f.view.base, n⟩ }

open Machine

variable {F S : Type} {α β : Type}

/-- Which functions two machines may have in the same place. -/
structure Scope (F : Type) where
  admits : Callable F → Callable F → Prop
  kept : ∀ {c d c' d'}, admits c d → c.Kept c' → d.Kept d' → admits c' d'

/-- The scope of all functions. -/
def Scope.all (F : Type) : Scope F := ⟨fun _ _ => True, fun _ _ _ => trivial⟩

/-- Where two activations of one body started. -/
structure Origin (F S : Type) where
  left : Machine F S
  right : Machine F S
  leftBase : Nat
  rightBase : Nat
  scope : Scope F
  /-- The result channels are known to be equal. -/
  heard : Prop
  /-- Slots that are known to be equal, counted from the bases. -/
  shared : Nat → Prop
  /-- The segment of the right body for a segment of the left one. -/
  renumber : Nat → Nat := id
  /-- Windows hold values, and no cells. -/
  plain : Prop := False
  /-- Registers that hold values where they are known to be equal, and no cells. -/
  bare : Nat → Prop := fun _ => False

/-- The frame of the left activation. -/
def Origin.leftFrame (o : Origin F S) (f : Frame) : Frame := f.placed o.leftBase

/-- The frame of the right activation. -/
def Origin.rightFrame (o : Origin F S) (f : Frame) : Frame :=
  { f.placed o.rightBase with index := o.renumber f.index }

/-- Both activations run one form of the body, and their slots may hold cells. -/
structure Origin.OneBody (o : Origin F S) : Prop where
  numbers : ∀ i, o.renumber i = i
  bare : ∀ r, ¬ o.bare r

@[simp] theorem Origin.leftFrame_view (o : Origin F S) (f : Frame) :
    (o.leftFrame f).view = ⟨o.leftBase, f.view.top⟩ := rfl

@[simp] theorem Origin.rightFrame_view (o : Origin F S) (f : Frame) :
    (o.rightFrame f).view = ⟨o.rightBase, f.view.top⟩ := rfl

/-- The functions of two machines are in scope. -/
def Scope.Covers (scope : Scope F) (a b : Machine F S) : Prop :=
  ∀ f, scope.admits (a.heap.function f) (b.heap.function f)

theorem Scope.Covers.steady {scope : Scope F} {a b a' b' : Machine F S} (h : scope.Covers a b)
    (ha : a.Steady a') (hb : b.Steady b') : scope.Covers a' b' :=
  fun f => scope.kept (h f) (ha.kept f) (hb.kept f)

theorem Machine.function_pushed (m : Machine F S) (c : Callable F) (f : FnId) :
    (m.pushed c).heap.function f =
      if f.index = m.heap.functions.size then c else m.heap.function f := by
  simp only [Machine.pushed, Heap.function, Array.getD_eq_getD_getElem?, Array.getElem?_push]
  split <;> rfl

theorem Scope.Covers.pushed {scope : Scope F} {a b : Machine F S} (h : scope.Covers a b)
    (hcount : a.heap.functions.size = b.heap.functions.size) {c d : Callable F}
    (hcd : scope.admits c d) : scope.Covers (a.pushed c) (b.pushed d) := by
  intro f
  rw [function_pushed, function_pushed, hcount]
  split
  · exact hcd
  · exact h f

section Relations

variable [HostFunction F]

/-- Two machines that are kin, each with what its origin had below its base. -/
structure Parted (o : Origin F S) (a b : Machine F S) : Prop where
  kin : a.Kin b
  results : o.heard → a.thread.results = b.thread.results
  left : o.left.Undisturbed a
  right : o.right.Undisturbed b
  leftKept : Stack.KeptBelow o.leftBase o.left.thread.stack a.thread.stack
  rightKept : Stack.KeptBelow o.rightBase o.right.thread.stack b.thread.stack
  covers : o.scope.Covers a b
  shared : ∀ i, o.shared i →
    a.thread.stack.slot (o.leftBase + i) = b.thread.stack.slot (o.rightBase + i)

/-- Two activations with the frame `f`, each at its base, that agree on the registers `K`. -/
structure Twin (o : Origin F S) (K : Nat → Prop) (f : Frame) (x y : Active F S) : Prop
    extends Parted o x.machine y.machine where
  leftFrame : x.frame = o.leftFrame f
  rightFrame : y.frame = o.rightFrame f
  regs : ∀ r, K r → x.machine.thread.stack.slot (o.leftBase + r) =
    y.machine.thread.stack.slot (o.rightBase + r)
  bare : ∀ r, K r → o.bare r → ∃ v, x.machine.thread.stack.slot (o.leftBase + r) = .value v

/-- Two activations that have left their body. -/
def Apart (o : Origin F S) (x y : Active F S) : Prop := Parted o x.machine y.machine

variable {o : Origin F S} {K K' : Nat → Prop} {f : Frame}

theorem Parted.closed (o : Origin F S) : Closed (Parted o) where
  kin h := h.kin
  steady h ha hb hk hr :=
    ⟨hk, fun ho => hr (h.results ho), h.left.trans ha.toUndisturbed, h.right.trans hb.toUndisturbed,
      by rw [ha.stack]; exact h.leftKept, by rw [hb.stack]; exact h.rightKept,
      h.covers.steady ha hb, by rw [ha.stack, hb.stack]; exact h.shared⟩

theorem Parted.hears (ho : o.heard) : Hears (Parted o) := fun _ _ h => h.results ho

/-- Machines that come from two with one core have one core. -/
theorem Parted.core {a b : Machine F S} (h : Parted o a b) (ho : o.heard)
    (horigin : o.left.Core o.right) : a.Core b where
  toKin := h.kin
  config := h.left.config.trans (horigin.config.trans h.right.config.symm)
  results := h.results ho
  depth := h.left.depth.trans (horigin.depth.trans h.right.depth.symm)
  boundaries := h.left.boundaries.trans (horigin.boundaries.trans h.right.boundaries.symm)

/-- Functions in scope can be made on both sides. -/
theorem Parted.pushed {a b : Machine F S} (h : Parted o a b) {c d : Callable F}
    (halike : c.Alike d) (hcd : o.scope.admits c d) : Parted o (a.pushed c) (b.pushed d) where
  kin := h.kin.pushed halike
  results := h.results
  left := h.left.trans (Still.ofPush a c).toUndisturbed
  right := h.right.trans (Still.ofPush b d).toUndisturbed
  leftKept := h.leftKept
  rightKept := h.rightKept
  covers := h.covers.pushed h.kin.count hcd
  shared := h.shared

namespace Twin

theorem apart {x y : Active F S} (h : Twin o K f x y) : Apart o x y := h.toParted

theorem weaken {x y : Active F S} (h : Twin o K f x y) (hK : ∀ r, K' r → K r) :
    Twin o K' f x y :=
  { h with
    regs := fun r hr => h.regs r (hK r hr)
    bare := fun r hr => h.bare r (hK r hr) }

/-- The machines under two activations are related by a closed relation. -/
theorem closed (o : Origin F S) (K : Nat → Prop) (f : Frame) :
    Closed fun a b : Machine F S =>
      Twin o K f ⟨o.leftFrame f, a⟩ ⟨o.rightFrame f, b⟩ where
  kin h := h.kin
  steady h ha hb hk hr :=
    { (Parted.closed o).steady h.toParted ha hb hk hr with
      leftFrame := rfl
      rightFrame := rfl
      regs := fun r hr => by rw [ha.stack, hb.stack]; exact h.regs r hr
      bare := fun r hr => by rw [ha.stack]; exact h.bare r hr }

theorem admits {c d : Callable F} (halike : c.Alike d) (hcd : o.scope.admits c d) :
    Admits (fun a b : Machine F S =>
      Twin o K f ⟨o.leftFrame f, a⟩ ⟨o.rightFrame f, b⟩) c d := fun _ _ h =>
  { h.toParted.pushed halike hcd with
    leftFrame := rfl
    rightFrame := rfl
    regs := h.regs
    bare := h.bare }

end Twin

end Relations

/-! ## Steps of the stack -/

namespace Machine

/-- A machine with another stack. -/
def restack (m : Machine F S) (s : Stack) (t : Option (Array TraceEvent)) : Machine F S :=
  { m with thread := { m.thread with stack := s }, trace := t }

@[simp] theorem restack_stack (m : Machine F S) (s : Stack) (t : Option (Array TraceEvent)) :
    (m.restack s t).thread.stack = s := rfl

theorem onStack_ok (g : Stack → α × Stack) (m : Machine F S) :
    ∃ t, onStack g m = .ok (g m.thread.stack).1 (m.restack (g m.thread.stack).2 t) := ⟨_, rfl⟩

theorem undisturbed_restack (m : Machine F S) (s : Stack) (t : Option (Array TraceEvent)) :
    m.Undisturbed (m.restack s t) := { Undisturbed.refl m with }

end Machine

section Relations

variable [HostFunction F] {o : Origin F S} {K K' : Nat → Prop} {f : Frame}

/-- Each side changes its own stack, from its base on. -/
theorem Parted.restack {a b : Machine F S} (h : Parted o a b) {s t : Stack}
    (hs : Stack.KeptBelow o.leftBase a.thread.stack s)
    (ht : Stack.KeptBelow o.rightBase b.thread.stack t)
    (hshared : ∀ i, o.shared i → s.slot (o.leftBase + i) = t.slot (o.rightBase + i))
    (ta tb : Option (Array TraceEvent)) : Parted o (a.restack s ta) (b.restack t tb) where
  kin := { h.kin with }
  results := h.results
  left := h.left.trans (undisturbed_restack a s ta)
  right := h.right.trans (undisturbed_restack b t tb)
  leftKept := h.leftKept.trans hs
  rightKept := h.rightKept.trans ht
  covers := h.covers
  shared := hshared

/-- A step on the stack of each of two activations. -/
theorem Twin.onStack_paired {g h : Stack → α × Stack} {Q : α → α → Active F S → Active F S → Prop}
    (hg : ∀ s, Stack.KeptBelow o.leftBase s (g s).2)
    (hh : ∀ s, Stack.KeptBelow o.rightBase s (h s).2)
    (heven : ∀ s t, Stack.Even o.leftBase o.rightBase s (g s).2 t (h t).2)
    (hQ : ∀ s t, (∀ r, K r → s.slot (o.leftBase + r) = t.slot (o.rightBase + r)) →
      (∀ r, K r → o.bare r → ∃ v, s.slot (o.leftBase + r) = .value v) →
      ∀ x y : Active F S, Parted o x.machine y.machine → x.frame = o.leftFrame f →
        y.frame = o.rightFrame f → x.machine.thread.stack = (g s).2 →
        y.machine.thread.stack = (h t).2 → Q (g s).1 (h t).1 x y) :
    Paired (Apart o) (Twin o K f) (Body.lift (onStack g)) (Body.lift (onStack h)) Q := by
  rintro ⟨fa, a⟩ ⟨fb, b⟩ hab
  obtain ⟨ta, hta⟩ := onStack_ok g a
  obtain ⟨tb, htb⟩ := onStack_ok h b
  simp only [Body.lift, hta, htb]
  exact hQ _ _ hab.regs hab.bare _ _ (hab.toParted.restack (hg _) (hh _)
    (fun i hi => heven _ _ i (hab.shared i hi)) ta tb) hab.leftFrame hab.rightFrame rfl rfl

/-- A step of the machine that keeps what two activations share leaves them as they are. -/
theorem Twin.lift_keeps {Q : α → β → Machine F S → Machine F S → Prop} {x : M F S α} {y : M F S β}
    (h : ∀ {R : Machine F S → Machine F S → Prop}, Closed R → (o.heard → Hears R) →
      (∀ c d, c.Alike d → o.scope.admits c d → Admits R c d) →
      (∀ a b, R a b → ∀ r, K r →
        a.thread.stack.slot (o.leftBase + r) = b.thread.stack.slot (o.rightBase + r)) →
      Paired R R x y fun u v a b => R a b ∧ Q u v a b) :
    Paired (Apart o) (Twin o K f) (Body.lift x) (Body.lift y)
      fun u v a b => Twin o K f a b ∧ Q u v a.machine b.machine := by
  rintro ⟨fa, a⟩ ⟨fb, b⟩ hab
  obtain rfl : fa = o.leftFrame f := hab.leftFrame
  obtain rfl : fb = o.rightFrame f := hab.rightFrame
  have := h (Twin.closed o K f) (fun ho _ _ h => Parted.hears ho _ _ (Twin.toParted h))
    (fun _ _ => Twin.admits) (fun _ _ h => Twin.regs h) a b hab
  simp only [Body.lift]
  cases hx : x a <;> cases hy : y b <;> rw [hx, hy] at this
  · exact this
  · exact this.elim
  · exact this.elim
  · exact ⟨this.1, this.2.1, this.2.2.toParted⟩

/-- A step of the machine that runs in step leaves two activations as they are. -/
theorem Twin.lift_paired {V : α → β → Prop} {x : M F S α} {y : M F S β}
    (h : ∀ {R : Machine F S → Machine F S → Prop}, Closed R → (o.heard → Hears R) →
      (∀ c d, c.Alike d → o.scope.admits c d → Admits R c d) →
      (∀ a b, R a b → ∀ r, K r →
        a.thread.stack.slot (o.leftBase + r) = b.thread.stack.slot (o.rightBase + r)) →
      InStep R V x y) :
    Paired (Apart o) (Twin o K f) (Body.lift x) (Body.lift y)
      fun u v a b => V u v ∧ Twin o K f a b :=
  Paired.mono (Twin.lift_keeps (Q := fun u v _ _ => V u v) fun hR hears hadmits hregs =>
    Paired.mono (h hR hears hadmits hregs) (fun _ _ h => h) (fun _ _ h => h)
      fun _ _ _ _ h => h.symm) (fun _ _ h => h) (fun _ _ h => h) fun _ _ _ _ h => h.symm

end Relations

/-! ## Steps of a body -/

/-- The rule for steps with equal results. -/
theorem Paired.seq {σ τ γ δ : Type} {E R R' : σ → τ → Prop} {W : γ → δ → σ → τ → Prop}
    {x : EStateM Unwind σ α} {y : EStateM Unwind τ α} {f : α → EStateM Unwind σ γ}
    {g : α → EStateM Unwind τ δ} (hx : Paired E R x y fun u v a b => u = v ∧ R' a b)
    (hf : ∀ u, Paired E R' (f u) (g u) W) : Paired E R (x >>= f) (y >>= g) W :=
  Paired.bind hx fun u _ a b h => h.1 ▸ hf u a b h.2

namespace Body

variable [HostFunction F] {o : Origin F S} {K : Nat → Prop} {f : Frame}

theorem setIndex_paired {i j : Nat} (hj : o.renumber i = j) :
    Paired (Apart o) (Twin o K f) (setIndex i : Body F S Unit) (setIndex j)
      fun u v => fun a b => u = v ∧ Twin o K { f with index := i } a b := by
  rintro ⟨fa, a⟩ ⟨fb, b⟩ hab
  subst hj
  exact ⟨rfl, { hab with
    leftFrame := congrArg (fun g : Frame => { g with index := i }) hab.leftFrame
    rightFrame := congrArg (fun g : Frame => { g with index := o.renumber i }) hab.rightFrame }⟩

theorem frame_paired :
    Paired (Apart o) (Twin o K f) (frame : Body F S Frame) frame
      fun u v a b => u = o.leftFrame f ∧ v = o.rightFrame f ∧ Twin o K f a b :=
  fun _ _ hab => ⟨hab.leftFrame, hab.rightFrame, hab⟩

theorem getSlot_paired {r : Nat} (hr : K r) :
    Paired (Apart o) (Twin o K f) (getSlot r : Body F S Val) (getSlot r)
      fun u v a b => u = v ∧ Twin o K f a b := by
  refine Paired.bind frame_paired fun u v => ?_
  rintro a b ⟨rfl, rfl, hab⟩
  refine Twin.lift_paired (fun hR _ _ hregs => read_inStep fun a b h => ?_) a b hab
  rw [View.get, View.get, View.slot_eq, View.slot_eq, (hR.kin h).cells]
  exact congrArg _ (hregs a b h r hr)

/-- Puts one slot on both sides. -/
theorem putSlot_paired (r : Nat) (x : Slot) (hx : o.bare r → ∃ v, x = .value v) :
    Paired (Apart o) (Twin o K f) (lift (putSlot (o.leftFrame f).view r x))
      (lift (putSlot (o.rightFrame f).view r x))
      fun u v a b => u = v ∧ Twin o (fun i => K i ∨ i = r) f a b := by
  refine Twin.onStack_paired (fun s => View.keptBelow_put (o.leftFrame f).view s r x)
    (fun s => View.keptBelow_put (o.rightFrame f).view s r x)
    (fun s t => View.even_put _ _ r x) ?_
  intro s t hregs hbare a b hp ha hb hs ht
  have hput : ∀ base top (s : Stack), (View.put ⟨base, top⟩ s r x).slot (base + r) = x :=
    fun base top s => by simp only [View.put, Stack.slot_put, if_pos]
  refine ⟨rfl, { hp with
    leftFrame := ha
    rightFrame := hb
    regs := fun i hi => ?_
    bare := fun i hi hb => ?_ }⟩
  · rw [hs, ht]
    rcases hi with hi | rfl
    · exact View.even_put _ _ r x i (hregs i hi)
    · exact (hput ..).trans (hput ..).symm
  · rw [hs]
    by_cases hir : i = r
    · subst hir
      exact (hx hb).imp fun v hv => (hput ..).trans hv
    · obtain ⟨v, hv⟩ := hbare i (hi.resolve_right hir) hb
      refine ⟨v, hv ▸ ?_⟩
      exact (Stack.slot_put ..).trans (if_neg fun h => hir (Nat.add_left_cancel h))

theorem setSlot_paired (r : Nat) (v : Val) :
    Paired (Apart o) (Twin o K f) (setSlot r v : Body F S Unit) (setSlot r v)
      fun u v a b => u = v ∧ Twin o (fun i => K i ∨ i = r) f a b := by
  refine Paired.bind frame_paired fun u w => ?_
  rintro a b ⟨rfl, rfl, hab⟩
  exact putSlot_paired r (.value v) (fun _ => ⟨v, rfl⟩) a b hab

theorem setSlots_paired (r : Nat) (vs : List Val) :
    Paired (Apart o) (Twin o K f) (setSlots r vs : Body F S Unit) (setSlots r vs)
      fun u v a b => u = v ∧ Twin o (fun i => K i ∨ r ≤ i ∧ i < r + vs.length) f a b := by
  induction vs generalizing r K with
  | nil => exact Paired.pure fun a b h => ⟨rfl, h.weaken fun i hi => hi.resolve_right (by simp)⟩
  | cons v vs ih =>
    refine Paired.seq (setSlot_paired r v) fun _ => Paired.mono (ih (r + 1)) (fun _ _ h => h)
      (fun _ _ h => h) fun _ _ a b h => ⟨h.1, h.2.weaken fun i hi => ?_⟩
    rw [List.length_cons] at hi
    show (K i ∨ i = r) ∨ r + 1 ≤ i ∧ i < r + 1 + vs.length
    by_cases hir : i = r
    · exact .inl (.inr hir)
    · exact hi.imp .inl fun h => by omega

theorem setTop_paired (n : Nat) :
    Paired (Apart o) (Twin o K f) (setTop n : Body F S Unit) (setTop n)
      fun u v a b => u = v ∧ Twin o K (f.withTop n) a b := by
  refine Paired.bind frame_paired fun u v => ?_
  rintro a b ⟨rfl, rfl, hab⟩
  refine Paired.bind (Q := fun u v a b => u = ⟨o.leftBase, n⟩ ∧ v = ⟨o.rightBase, n⟩ ∧
    Twin o K f a b) (Twin.onStack_paired
    (fun s => View.keptBelow_growTo (o.leftFrame f).view s n)
    (fun s => View.keptBelow_growTo (o.rightFrame f).view s n)
    (fun s t => View.even_growTo _ _ n n) ?_) (fun u v => ?_) a b hab
  · intro s t hregs hbare a b hp ha hb hs ht
    refine ⟨rfl, rfl, { hp with
      leftFrame := ha
      rightFrame := hb
      regs := fun i hi => ?_
      bare := fun i hi hb => ?_ }⟩
    · rw [hs, ht]
      exact View.even_growTo _ _ n n i (hregs i hi)
    · rw [hs]
      exact (hbare i hi hb).imp fun v hv => (View.slot_growTo ..).trans hv
  · rintro ⟨fa, a⟩ ⟨fb, b⟩ ⟨rfl, rfl, hab⟩
    obtain rfl : fa = o.leftFrame f := hab.leftFrame
    obtain rfl : fb = o.rightFrame f := hab.rightFrame
    exact ⟨rfl, { hab with leftFrame := rfl, rightFrame := rfl }⟩

theorem slotValues_paired {first last : Nat} (hK : ∀ i, first ≤ i → i < last → K i) :
    Paired (Apart o) (Twin o K f) (slotValues first last : Body F S (List Val))
      (slotValues first last) fun u v a b => u = v ∧ Twin o K f a b := by
  refine Paired.bind frame_paired fun u v => ?_
  rintro a b ⟨rfl, rfl, hab⟩
  refine Twin.lift_paired (fun hR _ _ hregs => read_inStep fun a b h => ?_) a b hab
  rw [(hR.kin h).cells]
  exact View.values_congr _ _ fun i hi hi' => hregs a b h i (hK i hi hi')

/-! ### Windows above the frame -/

/-- Two windows at one offset of their frames, with `n` live slots each, which are equal. -/
structure Offset (o : Origin F S) (offset n : Nat) (v w : View)
    (x y : Active F S) : Prop where
  left : v = ⟨o.leftBase + offset, n⟩
  right : w = ⟨o.rightBase + offset, n⟩
  slots : ∀ i < n, v.slot x.machine.thread.stack i = w.slot y.machine.thread.stack i

/-- A window over registers that are equal. -/
theorem window_paired {offset n : Nat} (hK : ∀ i < n, K (offset + i)) :
    Paired (Apart o) (Twin o K f) (lift (Machine.setTop ((o.leftFrame f).view.child offset) n))
      (lift (Machine.setTop ((o.rightFrame f).view.child offset) n))
      fun u v a b => Offset o offset n u v a b ∧ Twin o K f a b := by
  have kept : ∀ base s, Stack.KeptBelow base s
      (((f.placed base).view.child offset).setTop s n).2 := fun base s =>
    (View.keptBelow_growTo ((f.placed base).view.child offset) s n).mono (by simp)
  refine Twin.onStack_paired (kept _) (kept _) (fun s t => View.even_growTo _ _ n n) ?_
  intro s t hregs hbare a b hp ha hb hs ht
  have slots : ∀ i, K i → a.machine.thread.stack.slot (o.leftBase + i) =
      b.machine.thread.stack.slot (o.rightBase + i) := by
    intro i hi
    rw [hs, ht]
    exact View.even_growTo _ _ n n i (hregs i hi)
  refine ⟨⟨rfl, rfl, fun i hi => ?_⟩, { hp with
    leftFrame := ha
    rightFrame := hb
    regs := slots
    bare := fun i hi hb => ?_ }⟩
  · simp only [View.slot_eq, View.setTop_fst, View.child_base, Origin.leftFrame_view,
      Origin.rightFrame_view, Nat.add_assoc]
    exact slots _ (hK i hi)
  · rw [hs]
    exact (hbare i hi hb).imp fun v hv => (View.slot_growTo ..).trans hv

theorem scratch_paired :
    Paired (Apart o) (Twin o K f) (scratch : Body F S View) scratch
      fun u v a b => Offset o f.slots 0 u v a b ∧ Twin o K f a b := by
  refine Paired.bind frame_paired fun u v => ?_
  rintro a b ⟨rfl, rfl, hab⟩
  exact window_paired (fun i hi => absurd hi (Nat.not_lt_zero i)) a b hab

/-- Loading the same values at one offset of both frames. -/
theorem load_paired {offset n m : Nat} (vs : List Val) :
    Paired (Apart o) (Twin o K f) (lift (Machine.load ⟨o.leftBase + offset, n⟩ vs))
      (lift (Machine.load ⟨o.rightBase + offset, m⟩ vs))
      fun u v a b => Offset o offset vs.length u v a b ∧ Twin o K f a b := by
  have kept : ∀ (base n : Nat) s, Stack.KeptBelow base s
      ((⟨base + offset, n⟩ : View).load s vs).2 := fun base n s =>
    (View.keptBelow_load ⟨base + offset, n⟩ s vs).mono (by simp)
  refine Twin.onStack_paired (kept _ _) (kept _ _) (fun s t => View.even_load n m offset vs) ?_
  intro s t hregs hbare a b hp ha hb hs ht
  refine ⟨⟨rfl, rfl, fun i hi => ?_⟩, { hp with
    leftFrame := ha
    rightFrame := hb
    regs := fun i hi => ?_
    bare := fun i hi hb => ?_ }⟩
  · rw [hs, ht, View.slot_load _ _ _ _ hi, View.slot_load _ _ _ _ hi]
  · rw [hs, ht]
    exact View.even_load n m offset vs i (hregs i hi)
  · rw [hs]
    exact View.bare_load n offset vs i (hbare i hi hb)

end Body

end ScriptCore
