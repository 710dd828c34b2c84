import ScriptCore.Proofs.Registers

/-!
# Arguments and fresh frames

A call hands over the live slots of a window. Two windows with equal live slots
(`Windows o n`) lead to the same function with equal arguments (`resolve_paired`), are shaped to
its arity alike (`shape_paired`), and give fresh frames that agree on every slot of the body
(`openFrame_paired`).
-/

namespace ScriptCore

open Machine

variable {F S : Type}

section Relations

variable [HostFunction F]

/-- Two machines with equal slots in the first `n` places from their bases on. -/
structure Windows (o : Origin F S) (n : Nat) (a b : Machine F S) : Prop extends Parted o a b where
  slots : ∀ i < n, a.thread.stack.slot (o.leftBase + i) = b.thread.stack.slot (o.rightBase + i)
  plain : o.plain → ∀ i < n, ∃ v, a.thread.stack.slot (o.leftBase + i) = .value v

variable {o : Origin F S} {n : Nat}

theorem Windows.closed (o : Origin F S) (n : Nat) : Closed (Windows o n) where
  kin h := h.kin
  steady h ha hb hk hr :=
    { (Parted.closed o).steady h.toParted ha hb hk hr with
      slots := fun i hi => by rw [ha.stack, hb.stack]; exact h.slots i hi
      plain := by rw [ha.stack]; exact h.plain }

theorem Windows.shares (o : Origin F S) (n : Nat) :
    Shares (Windows o n) ⟨o.leftBase, n⟩ ⟨o.rightBase, n⟩ :=
  ⟨rfl, fun h i hi => h.slots i hi⟩

theorem InStep.toPaired {α β : Type} {R : Machine F S → Machine F S → Prop} {V : α → β → Prop}
    {x : M F S α} {y : M F S β} (h : InStep R V x y) (hR : ∀ a b, R a b → Parted o a b) :
    Paired (Parted o) R x y fun u v a b => V u v ∧ R a b :=
  Paired.mono h (fun _ _ h => h) hR fun _ _ _ _ h => h

/-- A step on both stacks, from the bases on. -/
theorem Windows.onStack_paired {α : Type} {g h : Stack → α × Stack}
    {Q : α → α → Machine F S → Machine F S → Prop}
    (hg : ∀ s, Stack.KeptBelow o.leftBase s (g s).2)
    (hh : ∀ s, Stack.KeptBelow o.rightBase s (h s).2)
    (heven : ∀ s t, (∀ i < n, s.slot (o.leftBase + i) = t.slot (o.rightBase + i)) →
      Stack.Even o.leftBase o.rightBase s (g s).2 t (h t).2)
    (hQ : ∀ s t, (∀ i < n, s.slot (o.leftBase + i) = t.slot (o.rightBase + i)) →
      (o.plain → ∀ i < n, ∃ v, s.slot (o.leftBase + i) = .value v) →
      ∀ a b : Machine F S, Parted o a b → a.thread.stack = (g s).2 →
        b.thread.stack = (h t).2 → Q (g s).1 (h t).1 a b) :
    Paired (Parted o) (Windows o n) (onStack g) (onStack h) Q := by
  intro a b hab
  obtain ⟨ta, hta⟩ := onStack_ok g a
  obtain ⟨tb, htb⟩ := onStack_ok h b
  rw [hta, htb]
  exact hQ _ _ hab.slots hab.plain _ _ (hab.toParted.restack (hg _) (hh _)
    (fun i hi => heven _ _ hab.slots i (hab.shared i hi)) ta tb) rfl rfl

theorem insertFront_paired (x : Val) :
    Paired (Parted o) (Windows o n) (insertFront ⟨o.leftBase, n⟩ x)
      (insertFront ⟨o.rightBase, n⟩ x)
      fun u v a b => u = ⟨o.leftBase, n + 1⟩ ∧ v = ⟨o.rightBase, n + 1⟩ ∧
        Windows o (n + 1) a b := by
  refine Windows.onStack_paired (fun s => View.keptBelow_insertFront ⟨o.leftBase, n⟩ s x)
    (fun s => View.keptBelow_insertFront ⟨o.rightBase, n⟩ s x)
    (fun s t hslots i hi => View.slot_insertFront_even x hslots i (.inr hi)) ?_
  intro s t hslots hplain a b hp ha hb
  refine ⟨rfl, rfl, hp, fun i hi => ?_, fun ho i hi => ?_⟩
  · rw [ha, hb]
    exact View.slot_insertFront_even x hslots i (.inl (Nat.le_of_lt_succ hi))
  · rw [ha, View.slot_insertFront]
    split
    · exact ⟨x, rfl⟩
    · rename_i hfirst
      dsimp only at hfirst ⊢
      rw [if_pos (by omega), show o.leftBase + i - 1 = o.leftBase + (i - 1) by omega]
      exact hplain ho (i - 1) (by omega)

theorem fit_paired (k : Nat) :
    Paired (Parted o) (Windows o n) (fit ⟨o.leftBase, n⟩ k) (fit ⟨o.rightBase, n⟩ k)
      fun u v a b => u = ⟨o.leftBase, k⟩ ∧ v = ⟨o.rightBase, k⟩ ∧ Windows o k a b := by
  refine Windows.onStack_paired (fun s => View.keptBelow_fit ⟨o.leftBase, n⟩ s k)
    (fun s => View.keptBelow_fit ⟨o.rightBase, n⟩ s k) (fun _ _ _ => View.even_fit n k) ?_
  intro s t hslots hplain a b hp ha hb
  refine ⟨View.fit_fst .., View.fit_fst .., hp, fun i hi => ?_, fun ho i hi => ?_⟩
  · rw [ha, hb, View.slot_fit, View.slot_fit]
    dsimp only
    by_cases h : n ≤ i
    · rw [if_pos (by omega), if_pos (by omega)]
    · rw [if_neg (by omega), if_neg (by omega)]
      exact hslots i (by omega)
  · rw [ha, View.slot_fit]
    split
    · exact ⟨.nil, rfl⟩
    · rename_i hin
      dsimp only at hin
      exact hplain ho i (by omega)

/-- A window that is loaded with values, on whatever was there before. -/
theorem load_paired {R : Machine F S → Machine F S → Prop} (hR : ∀ a b, R a b → Parted o a b)
    (m k : Nat) (vs : List Val) :
    Paired (Parted o) R (load ⟨o.leftBase, m⟩ vs) (load ⟨o.rightBase, k⟩ vs)
      fun u v a b => u = ⟨o.leftBase, vs.length⟩ ∧ v = ⟨o.rightBase, vs.length⟩ ∧
        Windows o vs.length a b := by
  refine Paired.mono (Windows.onStack_paired (n := 0)
    (fun s => View.keptBelow_load ⟨o.leftBase, m⟩ s vs)
    (fun s => View.keptBelow_load ⟨o.rightBase, k⟩ s vs)
    (fun s t _ => View.even_load (l := o.leftBase) (r := o.rightBase) m k 0 vs) ?_)
    (fun a b h => ⟨hR a b h, nofun, fun _ => nofun⟩) (fun _ _ h => h) (fun _ _ _ _ h => h)
  intro s t _ _ a b hp ha hb
  have hl := fun i => View.slot_load ⟨o.leftBase, m⟩ s vs i
  have hr := fun i => View.slot_load ⟨o.rightBase, k⟩ t vs i
  refine ⟨rfl, rfl, hp, fun i hi => ?_, fun _ i hi => ⟨_, ha ▸ hl i hi⟩⟩
  rw [ha, hb]
  exact (hl i hi).trans (hr i hi).symm

/-- Each handler on the way takes the value before it as first argument. -/
theorem resolve_paired (target : Val) (limit : Nat) :
    Paired (Parted o) (Windows o n) (resolve ⟨o.leftBase, n⟩ target limit)
      (resolve ⟨o.rightBase, n⟩ target limit)
      fun u v a b => u.1 = v.1 ∧ ∃ k, u.2 = ⟨o.leftBase, k⟩ ∧ v.2 = ⟨o.rightBase, k⟩ ∧
        Windows o k a b := by
  induction limit generalizing n target with
  | zero =>
    unfold resolve
    split
    · exact Paired.pure fun _ _ h => ⟨rfl, n, rfl, rfl, h⟩
    · refine ((metamethod_inStep (Windows.closed o n) _ _).toPaired fun _ _ h => h.toParted).seq
        fun h? => ?_
      cases h? with
      | none => exact Paired.throw trivial fun _ _ h => h.toParted
      | some handler => exact Paired.throw trivial fun _ _ h => h.toParted
  | succ limit ih =>
    unfold resolve
    split
    · exact Paired.pure fun _ _ h => ⟨rfl, n, rfl, rfl, h⟩
    · refine ((metamethod_inStep (Windows.closed o n) _ _).toPaired fun _ _ h => h.toParted).seq
        fun h? => ?_
      cases h? with
      | none => exact Paired.throw trivial fun _ _ h => h.toParted
      | some handler =>
        refine ((record_inStep (Windows.closed o n) _ _).toPaired fun _ _ h => h.toParted).seq
          fun _ => (insertFront_paired _).bind fun u v => ?_
        rintro a b ⟨rfl, rfl, hab⟩
        exact ih handler a b hab

omit [HostFunction F] in
/-- Shaping changes nothing but the slots from the base of the window on. -/
theorem Machine.shape_ok (arity : Arity) (window : View) (m : Machine F S) :
    ∃ k s t, shape arity window m = .ok ⟨window.base, k⟩ (m.restack s t) := by
  cases arity with
  | fixed n =>
    obtain ⟨t, ht⟩ := onStack_ok (window.fit · n) m
    exact ⟨n, _, t, ht.trans (congrArg (EStateM.Result.ok · _) (View.fit_fst ..))⟩
  | variadic => exact ⟨window.top, m.thread.stack, m.trace, rfl⟩

/-- Shaping the arguments to an arity. -/
theorem shape_paired (arity : Arity) :
    Paired (Parted o) (Windows o n) (shape arity ⟨o.leftBase, n⟩) (shape arity ⟨o.rightBase, n⟩)
      fun u v a b => ∃ k, u = ⟨o.leftBase, k⟩ ∧ v = ⟨o.rightBase, k⟩ ∧
        (∀ i, arity.Provides i → i < k) ∧ Windows o k a b := by
  cases arity with
  | fixed k =>
    exact Paired.mono (fit_paired k) (fun _ _ h => h) (fun _ _ h => h) fun u v a b h =>
      ⟨k, h.1, h.2.1, fun _ => id, h.2.2⟩
  | variadic => exact Paired.pure fun _ _ h => ⟨n, rfl, rfl, fun _ => False.elim, h⟩

omit [HostFunction F] in
/-- A fresh frame fits its window to the parameters and clears the other slots. -/
theorem Machine.openFrame_ok (layout : Layout) (w : View) (m : Machine F S) : ∃ t,
    openFrame layout w m = .ok
      ⟨⟨w.base, layout.params⟩, 0, layout.slots,
        if layout.vararg then w.valuesFrom m.thread.stack m.heap.cells layout.params else []⟩
      (m.restack (View.clearRange ⟨w.base, layout.params⟩ (w.fit m.thread.stack layout.params).2
        layout.params layout.slots) t) := by
  obtain ⟨x, hx⟩ := onStack_ok (w.fit · layout.params) m
  obtain ⟨t, ht⟩ := onStack_ok (fun s => ((), (w.fit m.thread.stack layout.params).1.clearRange s
    layout.params layout.slots)) (m.restack (w.fit m.thread.stack layout.params).2 x)
  refine ⟨t, ?_⟩
  have hrest : ∀ varargs, (do
      let view ← fit w layout.params
      clearRange view layout.params layout.slots
      return (⟨view, 0, layout.slots, varargs⟩ : Frame) : M F S Frame) m = .ok
        ⟨(w.fit m.thread.stack layout.params).1, 0, layout.slots, varargs⟩ _ :=
    fun varargs => (bind_of_ok hx).trans (bind_of_ok ht)
  rw [View.fit_fst] at hrest
  unfold openFrame
  split
  · exact hrest _
  · exact hrest _

/-- **Fresh frames in step.** Fresh frames on equal arguments agree on all their slots. -/
theorem openFrame_paired (layout : Layout) (hentry : o.renumber 0 = 0)
    (hbare : ∀ r, o.bare r → o.plain) :
    Paired (Parted o) (Windows o n) (openFrame layout ⟨o.leftBase, n⟩)
      (openFrame layout ⟨o.rightBase, n⟩) fun u v a b => ∃ f : Frame,
        f.index = 0 ∧ f.slots = layout.slots ∧ u = o.leftFrame f ∧ v = o.rightFrame f ∧
          Twin o (fun r => r < layout.slots) f ⟨u, a⟩ ⟨v, b⟩ := by
  -- With or without further arguments the window is fitted to the parameters, and the slots behind
  -- them are cleared.
  have hrest : ∀ varargs, Paired (Parted o) (Windows o n)
      (do
        let view ← fit ⟨o.leftBase, n⟩ layout.params
        clearRange view layout.params layout.slots
        return (⟨view, 0, layout.slots, varargs⟩ : Frame))
      (do
        let view ← fit ⟨o.rightBase, n⟩ layout.params
        clearRange view layout.params layout.slots
        return (⟨view, 0, layout.slots, varargs⟩ : Frame)) fun u v a b => ∃ f : Frame,
          f.index = 0 ∧ f.slots = layout.slots ∧ u = o.leftFrame f ∧ v = o.rightFrame f ∧
            Twin o (fun r => r < layout.slots) f ⟨u, a⟩ ⟨v, b⟩ := by
    intro varargs
    refine (fit_paired layout.params).bind fun u v => ?_
    rintro a b ⟨rfl, rfl, hab⟩
    refine Paired.bind (Q := fun _ _ a b => Windows o layout.slots a b)
      (Windows.onStack_paired
        (fun s => View.keptBelow_clearRange ⟨o.leftBase, layout.params⟩ s _ _)
        (fun s => View.keptBelow_clearRange ⟨o.rightBase, layout.params⟩ s _ _)
        (fun _ _ _ => View.even_clearRange _ _ _ _) ?_)
      (fun _ _ => Paired.pure fun a b hab => ?_) a b hab
    · intro s t hslots hplain a b hp ha hb
      refine ⟨hp, fun i hi => ?_, fun ho i hi => ?_⟩
      · rw [ha, hb]
        simp only [View.slot_clearRange]
        by_cases h : layout.params ≤ i
        · rw [if_pos (by omega), if_pos (by omega)]
        · rw [if_neg (by omega), if_neg (by omega)]
          exact hslots i (by omega)
      · rw [ha, View.slot_clearRange]
        split
        · exact ⟨.nil, rfl⟩
        · rename_i hout
          dsimp only at hout
          exact hplain ho i (by omega)
    · refine ⟨⟨⟨0, layout.params⟩, 0, layout.slots, varargs⟩, rfl, rfl, rfl, ?_, ?_⟩
      · unfold Origin.rightFrame
        rw [hentry]
        rfl
      · exact { hab.toParted with
          leftFrame := rfl
          rightFrame := by
            unfold Origin.rightFrame
            rw [hentry]
            rfl
          regs := hab.slots
          bare := fun r hr hr' => hab.plain (hbare r hr') r hr }
  unfold openFrame
  split
  · exact ((valuesFrom_inStep (Windows.closed o n) (Windows.shares o n) _).toPaired
      fun _ _ h => h.toParted).seq hrest
  · exact ((InStep.pure (R := Windows o n) rfl).toPaired fun _ _ h => h.toParted).seq hrest

end Relations

end ScriptCore
