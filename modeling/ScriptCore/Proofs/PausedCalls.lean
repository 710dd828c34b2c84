import ScriptCore.Proofs.PausedFunctions

/-!
# Calls with pauses

A call counts its function in and out and carries out the tail calls that are asked for behind it
(`settleCall`). The function that yields follows the one that answers at once (`ask_follows`); every
other one follows itself. So calls do (`invoke_follows`), tail calls do (`drain_follows`), and by
induction on the fuel the whole engine (`answered`).
-/

namespace ScriptCore

open Machine

/-! ## Calls that are counted -/

namespace Machine

variable {F S : Type} [HostBody F S]

/-- What a call makes of the ending of its function: it is counted out, and pending tail calls are
carried out. -/
def settleCall (fuel : Nat) (window : View) (l : Nat) :
    EStateM.Result Unwind (Machine F S) Unit → EStateM.Result Unwind (Machine F S) Unit
  | .ok _ t => drain (runner fuel (perform fuel)) window l (leave t)
  | .error e t => .error e (leave t)

theorem counted_drain (fuel : Nat) (window : View) (l : Nat) (x : M F S Unit) (m : Machine F S) :
    (do enter; ensuring x leave; drain (runner fuel (perform fuel)) window l) m =
      if m.world.config.maxCallDepth ≤ m.thread.depth then
        .error (.fault (.stackOverflow m.thread.depth)) m
      else settleCall fuel window l (x (entered m)) := by
  have hcounted := Regime.counted_eq x m
  rw [← bind_assoc]
  by_cases h : m.world.config.maxCallDepth ≤ m.thread.depth
  · rw [if_pos h] at hcounted ⊢
    exact bind_of_error hcounted
  · rw [if_neg h] at hcounted ⊢
    unfold ensuring at hcounted
    unfold settleCall
    cases hx : x (entered m) with
    | ok u t =>
      rw [hx] at hcounted
      exact bind_of_ok hcounted
    | error e t =>
      rw [hx] at hcounted
      exact bind_of_error hcounted

omit [HostBody F S] in
theorem Evolves.leave {base : Nat} {m t : Machine F S} (h : m.Evolves base t) :
    (leave m).Evolves base (Machine.leave t) := { h with depth := congrArg (· - 1) h.depth }

end Machine

variable {D : Partner} {n n' l' : Nat} {κ : Budget} {y : Machine Answer Dialogue} {base : Nat}

/-- The function of a call, last entered at `z`, in a request that was last entered at `st`. The
left call goes on with the tail calls in the window `i.1`, with fuel `i.2` for them. -/
structure InCall (n n' l' : Nat) (κ : Budget) (i : View × Nat) (z st : Place) : Prop where
  levels : κ.Levels (n + 1) (n' + 1)
  fuel : κ.Fuels n i.2 l'
  window : i.1.base = st.window.base
  base : z.window.base = st.window.base
  asked : z.asked = st.asked
  evolves : st.machine.Evolves st.window.base (leave z.machine)
  depth : z.machine.thread.depth = st.machine.thread.depth + 1
  room : st.machine.thread.depth < st.machine.world.config.maxCallDepth
  coroutines : z.machine.heap.coroutines = st.machine.heap.coroutines

/-- Pending tail calls with fuel `l'` on the right are followed. -/
def Drains (D : Partner) (n n' l' : Nat) : Prop :=
  ∀ {κ : Budget} {l : Nat} {y : Machine Answer Dialogue} {base : Nat} {st : Place}
    {a b : Machine Answer Dialogue} {w w' : View}, κ.Levels (n + 1) (n' + 1) → κ.Fuels n l l' →
    Beside D y base st a b → w.base = st.window.base → w'.base = base →
    Follows (requests D (n + 1) y base) κ st (drain (runner n (perform n)) w l a)
      (drain (runner n' (perform n')) w' l' b)

namespace InCall

variable {i : View × Nat} {z st : Place}

/-- When the function has ended, both machines are as before the call. -/
theorem beside {y' a b : Machine Answer Dialogue} (h : InCall n n' l' κ i z st)
    (hy : y.Evolves base (leave y')) (hab : Beside D y' base z a b) :
    Beside D y base st (leave a) (leave b) where
  core := { hab.core with depth := congrArg (· - 1) hab.core.depth }
  covers := hab.covers
  left := h.evolves.trans (h.base ▸ hab.left.leave)
  coroutines := hab.coroutines.trans h.coroutines
  right := hy.trans hab.right.leave
  host := h.asked ▸ hab.host
  adders := hab.adders
  active := hab.active

/-- A suspended function leaves its call suspended. -/
theorem paused {a : Machine Answer Dialogue} (h : InCall n n' l' κ i z st) (ha : Paused z a) :
    Paused st (leave a) :=
  ⟨h.evolves.trans (h.base ▸ ha.evolves.leave), ha.coroutines.trans h.coroutines, ha.boundaries⟩

/-- A call that is resumed is counted in again. -/
theorem again {s : Suspension} {a : Machine Answer Dialogue} {st' : Place}
    (h : InCall n n' l' κ i z st) (hκ : κ ≠ some 0) (ha : Paused z a)
    (hst : Reentered st s (leave a) st') (x : Option (Array TraceEvent)) :
    Reentered z s a ⟨st'.window, entered { st'.machine with trace := x }, st'.asked⟩ ∧
      InCall n n' l' κ.next (st'.window, n)
        ⟨st'.window, entered { st'.machine with trace := x }, st'.asked⟩ st' := by
  have hdepth : a.thread.depth = st.machine.thread.depth + 1 := ha.evolves.depth.trans h.depth
  have hbefore : st'.machine.thread.depth = st.machine.thread.depth := by
    rw [hst.renewed.depth]
    show a.thread.depth - 1 = _
    rw [hdepth]
    rfl
  have hconfig : st'.machine.world.config = st.machine.world.config := by
    rw [hst.renewed.world]
    exact ha.evolves.config.trans h.evolves.config
  constructor
  · refine ⟨h.asked ▸ hst.asked, { hst.renewed with depth := ?_ }, hst.active⟩
    show st'.machine.thread.depth + 1 = _
    rw [hbefore, hdepth]
  · refine ⟨h.levels.next, h.fuel.next hκ, rfl, rfl, rfl, ?_, rfl, ?_, rfl⟩
    · exact (Still.ofTrace st'.machine x).evolves
    · rw [hbefore, hconfig]
      exact h.room

end InCall

/-- What surrounds a function in its call. -/
theorem call_frames {y' : Machine Answer Dialogue} {w' : View} (hdrains : Drains D n n' l')
    (hy : y.Evolves base (leave y')) (hw' : w'.base = base) :
    Follows.Frames (reentries D n y' base) (requests D (n + 1) y base)
      (fun i : View × Nat => settleCall n i.1 i.2) (settleCall n' w' l') (InCall n n' l') where
  ok hjoins hok := hdrains hjoins.levels hjoins.fuel (hjoins.beside hy hok.2) hjoins.window hw'
  error hjoins he herror := .error he (hjoins.beside hy herror)
  suspend hjoins hleft := by
    rename_i κ i z st s a
    obtain ⟨hpaused, hchain⟩ := hleft
    refine ⟨_, _, rfl, hjoins.paused hpaused, fun hκ st' hst' => ?_⟩
    obtain ⟨values, chain⟩ := s
    obtain ⟨link, inner, rfl⟩ := List.exists_cons_of_ne_nil hchain
    obtain ⟨x, hx⟩ := record_ok st'.machine fun _ =>
      .replay (st'.machine.heap.function link.function).name link.index inner.length
    obtain ⟨hreentered, hcounted⟩ := hjoins.again hκ hpaused hst' x
    refine ⟨(st'.window, n), _, hreentered, hcounted, ?_⟩
    have hrun := counted_drain n st'.window n
      (reenterFunction n (perform n) link inner (D.answer st') st'.window)
      { st'.machine with trace := x }
    rw [if_neg (Nat.not_le_of_lt hcounted.room)] at hrun
    refine Eq.trans ?_ hrun
    show (reenter (runner n (perform n)) link inner (D.answer st') st'.window >>= fun _ =>
      drain (runner n (perform n)) st'.window n) st'.machine = _
    unfold reenter
    simp only [bind_assoc]
    exact bind_of_ok hx
  exhaustedLeft _ _ := ⟨_, rfl⟩
  exhaustedRight _ := ⟨_, rfl⟩
  misplaced _ := ⟨_, rfl⟩

/-! ## Questions -/

/-- A machine whose host has given the last answer of a dialogue. -/
def Machine.answered (m : Machine Answer Dialogue) (d : Dialogue) : Machine Answer Dialogue :=
  { m with thread := { m.thread with results := .ofValues d.answer }, host := d }

section Ask

/-- A question where a yield is possible is answered at once. -/
theorem Dialogue.reply_ok (args : View) {m : Machine Answer Dialogue}
    (h : m.thread.boundaries = 0) : reply args m = .ok () (m.answered
      (m.host.ask (args.valuesFrom m.thread.stack m.heap.cells 0))) := by
  unfold reply
  rw [if_neg fun hne => hne h]
  rfl

variable {l : Nat} {w w' : View}

/-- The results that the resumed left machine and the right one are given are the same. -/
theorem Beside.given {st st' : Place} {a b : Machine Answer Dialogue} {s : Suspension}
    (h : Beside D y base st a b) (hst : Reentered st s a st') :
    Beside D y base st' { st'.machine with thread := { st'.machine.thread with
        results := .ofValues (D.answer st') } }
      (b.answered ⟨D.strategy, st'.asked⟩) where
  core :=
    { tables := hst.renewed.tables.trans h.core.tables
      cells := hst.renewed.cells.trans h.core.cells
      count := (congrArg Array.size hst.renewed.functions).trans h.core.count
      functions := fun f => by
        rw [Heap.function, hst.renewed.functions]
        exact h.core.functions f
      world := hst.renewed.world ▸ h.core.world
      config := hst.renewed.world ▸ h.core.config
      results := rfl
      depth := hst.renewed.depth.trans h.core.depth
      boundaries := hst.renewed.boundaries.trans h.core.boundaries
      output := hst.renewed.output.trans h.core.output
      journal := hst.renewed.journal.trans h.core.journal }
  covers f := by
    rw [Heap.function, hst.renewed.functions]
    exact h.covers f
  left := (Steady.ofResults st'.machine _).evolves
  coroutines := rfl
  right := { h.right with }
  host := rfl
  adders g hg := by
    rw [Heap.function, hst.renewed.functions]
    exact h.adders g hg
  active := hst.active

/-- **Questions.** A call of the function that yields follows one of the function that answers at
once. -/
theorem ask_follows {f : FnId} {k : Nat} {st : Place} {a b : Machine Answer Dialogue}
    (hfuel : κ.Fuels n l l') (h : Beside D y base st a b)
    (hslots : ∀ i < k, View.slot ⟨st.window.base, k⟩ a.thread.stack i =
      View.slot ⟨base, k⟩ b.thread.stack i)
    (hyield : a.heap.function f = .builtin .yield) (hanswer : b.heap.function f = .host .answer) :
    Follows (requests D (n + 1) y base) κ st
      (settleCall n w l (runFunction n (perform n) f ⟨st.window.base, k⟩ (entered a)))
      (settleCall n' w' l' (runFunction n' (perform n') f ⟨base, k⟩ (entered b))) := by
  have hvalues : View.valuesFrom ⟨st.window.base, k⟩ a.thread.stack a.heap.cells 0 =
      View.valuesFrom ⟨base, k⟩ b.thread.stack b.heap.cells 0 := by
    rw [h.core.cells]
    exact View.values_congr _ _ fun i _ hi => hslots i hi
  have hleft : runFunction n (perform n) f ⟨st.window.base, k⟩ (entered a) =
      yieldValues (View.valuesFrom ⟨base, k⟩ b.thread.stack b.heap.cells 0) (entered a) := by
    rw [← hvalues]
    unfold runFunction
    rw [functionAt_bind, show (entered a).heap.function f = _ from hyield]
    rfl
  have hright : runFunction n' (perform n') f ⟨base, k⟩ (entered b) =
      Dialogue.reply ⟨base, k⟩ (entered b) := by
    unfold runFunction
    rw [functionAt_bind, show (entered b).heap.function f = _ from hanswer]
    rfl
  rw [hleft, hright, yieldValues_eq]
  -- Where no yield is possible, the left run has a fault and the right one is misplaced.
  by_cases hboundaries : b.thread.boundaries = 0
  · have hcurrent : ¬ (entered a).thread.current.isNone := by
      rw [← Option.not_isSome, Bool.not_eq_true, Bool.not_eq_false']
      exact h.active
    have hyieldable : a.thread.boundaries = 0 := h.core.boundaries.trans hboundaries
    have hreply := Dialogue.reply_ok ⟨base, k⟩ (m := entered b) hboundaries
    rw [if_neg hcurrent, if_neg fun hne => hne hyieldable, hreply]
    refine .suspended ⟨h.left, h.coroutines, hyieldable⟩ fun hκ st' hst' => ?_
    have hasked : (entered b).host.ask (View.valuesFrom ⟨base, k⟩ (entered b).thread.stack
        (entered b).heap.cells 0) = ⟨D.strategy, st'.asked⟩ := by
      show Dialogue.ask b.host _ = _
      rw [hst'.asked, h.host]
      rfl
    rw [hasked]
    cases l' with
    | zero =>
      -- the right run may have no fuel here only if there is no limit to the resumes
      obtain rfl : κ = none := by
        rcases κ with _ | _ | k
        · rfl
        · exact (hκ rfl).elim
        · have hfuel : l + (k + 1) * (n + 1) ≤ 0 := hfuel
          rw [Nat.succ_mul] at hfuel
          omega
      exact .spentRight
    | succ l' =>
      have hdrain := drain_values (runner n' (perform n')) w' l'
        (m := b.answered ⟨D.strategy, st'.asked⟩) rfl
      have hright : settleCall n' w' (l' + 1)
          (.ok () ((entered b).answered ⟨D.strategy, st'.asked⟩)) = _ := hdrain
      rw [hright]
      exact .ok ⟨rfl, h.given hst'⟩
  · unfold Dialogue.reply
    rw [if_pos (c := (entered b).thread.boundaries ≠ 0) hboundaries]
    exact .misplaced

end Ask

/-! ## Calls -/

section Calls

variable {l : Nat} {w w' : View} {st : Place} {a b : Machine Answer Dialogue}

/-- A function that is entered on equal slots, and the tail calls behind it. -/
theorem counted_follows (hreq : Answered D n) (hdrains : Drains D n n' l') {f : FnId} {k : Nat}
    (hlevels : κ.Levels (n + 1) (n' + 1)) (hfuel : κ.Fuels n l l') (h : Beside D y base st a b)
    (hslots : ∀ i < k, View.slot ⟨st.window.base, k⟩ a.thread.stack i =
      View.slot ⟨base, k⟩ b.thread.stack i)
    (hprovides : ∀ i, (a.heap.function f).arity.Provides i → i < k)
    (hw : w.base = st.window.base) (hw' : w'.base = base) :
    Follows (requests D (n + 1) y base) κ st
      ((do
        enter
        ensuring ((runner n (perform n)).run f ⟨st.window.base, k⟩) leave
        drain (runner n (perform n)) w l) a)
      ((do
        enter
        ensuring ((runner n' (perform n')).run f ⟨base, k⟩) leave
        drain (runner n' (perform n')) w' l') b) := by
  rw [counted_drain, counted_drain, ← h.core.config, ← h.core.depth]
  by_cases hroom : a.world.config.maxCallDepth ≤ a.thread.depth
  · rw [if_pos hroom, if_pos hroom]
    exact .error trivial h
  rw [if_neg hroom, if_neg hroom]
  by_cases hyield : a.heap.function f = .builtin .yield
  · have hsanctioned : Sanctioned D.adders (a.heap.function f) (b.heap.function f) := h.covers f
    rw [hyield] at hsanctioned
    generalize hc : b.heap.function f = c at hsanctioned
    cases hsanctioned with
    | builtin hquiet => exact absurd hquiet (by unfold Builtin.Quiet; simp [Builtin.isPlain])
    | yield => exact ask_follows hfuel h hslots hyield hc
  · have hentered : Handed D (entered b) base ⟨⟨st.window.base, k⟩, entered a, st.asked⟩ k
        (entered a) (entered b) :=
      { core := { h.core with depth := congrArg (· + 1) h.core.depth }
        covers := h.covers
        left := .refl _ _
        coroutines := rfl
        right := .refl _ _
        host := h.host
        adders := h.adders
        active := h.active
        slots := hslots }
    have hfunction := function_follows hreq hlevels.lower hlevels.fuels hentered hprovides hyield
    have hbase : st.machine.thread.depth = a.thread.depth := h.left.depth.symm
    have hjoins : InCall n n' l' κ (w, l) ⟨⟨st.window.base, k⟩, entered a, st.asked⟩ st := by
      refine ⟨hlevels, hfuel, hw, rfl, rfl, h.left, ?_, ?_, h.coroutines⟩
      · rw [hbase]
        rfl
      · rw [hbase, ← h.left.config]
        exact Nat.lt_of_not_le hroom
    exact hfunction.through (call_frames hdrains h.right hw') hjoins

/-- **Calls with pauses.** A call follows itself from windows with equal live slots on. -/
theorem invoke_follows (hreq : Answered D n) (hdrains : Drains D n n' l')
    (hlevels : κ.Levels (n + 1) (n' + 1)) (hfuel : κ.Fuels n l l') (h : Beside D y base st a b)
    (hw : w.base = st.window.base) (hw' : w'.base = base) (htop : w.top = w'.top)
    (hslots : ∀ i < w.top, w.slot a.thread.stack i = w'.slot b.thread.stack i) (target : Val) :
    Follows (requests D (n + 1) y base) κ st
      ((do
        invoke (runner n (perform n)) w target
        drain (runner n (perform n)) w l) a)
      ((do
        invoke (runner n' (perform n')) w' target
        drain (runner n' (perform n')) w' l') b) := by
  obtain ⟨_, top⟩ := w
  obtain ⟨_, _⟩ := w'
  obtain rfl : _ = st.window.base := hw
  obtain rfl : base = _ := hw'.symm
  obtain rfl : top = _ := htop
  let o : Origin Answer Dialogue := D.origin a b st.window.base base
  have hgo : ∀ a' b', Parted o a' b' → Beside D y base st a' b' :=
    fun _ _ hp => h.go (Nat.le_refl _) (Nat.le_refl _) hp
  have hwindows : Windows o top a b :=
    { h.parted st.window.base base with slots := hslots, plain := False.elim }
  unfold invoke
  simp only [bind_assoc]
  refine Follows.after ((config_inStep (Windows.closed o top)).toPaired fun _ _ hp => hp.toParted)
    hwindows hgo fun limits limits' a b hconfig => ?_
  obtain ⟨hlimits, hwindows⟩ := hconfig
  rw [← hlimits.chain]
  refine Follows.after (resolve_paired target limits.maxMetaChain) hwindows hgo
    fun found found' a b hfound => ?_
  obtain ⟨f, _⟩ := found
  obtain ⟨_, _⟩ := found'
  obtain ⟨rfl, k, rfl, rfl, hwindows⟩ := hfound
  rw [functionAt_bind, functionAt_bind, ← (hwindows.kin.functions f).arity_eq]
  -- shaping leaves the heap alone, so the function still has the arity it is shaped to
  have hshape := shape_paired (o := o) (a.heap.function f).arity a b hwindows
  obtain ⟨j, s, x, ha⟩ := shape_ok (a.heap.function f).arity ⟨o.leftBase, k⟩ a
  obtain ⟨j', s', x', hb⟩ := shape_ok (a.heap.function f).arity ⟨o.rightBase, k⟩ b
  rw [ha, hb] at hshape
  obtain ⟨j, hargs, hargs', hprovides, hwindows⟩ := hshape
  cases hargs
  cases hargs'
  obtain ⟨t, ht⟩ := record_ok (a.restack s x) fun _ =>
    .invoke (a.heap.function f).name j a.thread.depth
  obtain ⟨t', ht'⟩ := record_ok (b.restack s' x') fun _ =>
    .invoke (b.heap.function f).name j b.thread.depth
  refine Follows.steps ha hb (Follows.steps rfl rfl (Follows.steps ht ht' ?_))
  exact counted_follows hreq hdrains hlevels hfuel ((hgo _ _ hwindows.toParted).setTrace t t')
    hwindows.slots hprovides rfl rfl

end Calls

/-! ## Requests -/

/-- **Tail calls with pauses.** Pending tail calls follow themselves. -/
theorem drain_follows (hreq : Answered D n) (n' l' : Nat) : Drains D n n' l' := by
  induction l' with
  | zero =>
    intro κ l y base st a b w w' _ hfuel _ _ _
    refine .of_spent (hfuel.spent (.inr rfl)) (fun hl => ?_) fun _ => ⟨_, rfl⟩
    subst hl
    exact ⟨_, rfl⟩
  | succ l' ih =>
    intro κ l y base st a b w w' hlevels hfuel h hw hw'
    cases l with
    | zero => exact .of_spent (hfuel.spent (.inl rfl)) (fun _ => ⟨_, rfl⟩) nofun
    | succ l =>
      have hclosed := Beside.closed D y base st
      unfold drain
      have hears := Beside.hears D y base st
      refine h.seq (takeTailCall_inStep hclosed hears) fun target? a b h => ?_
      cases target? with
      | none => exact .ok ⟨rfl, h⟩
      | some target =>
        refine Follows.after (hear_inStep hears) h (fun _ _ hab => hab) fun m m' a b hm => ?_
        obtain ⟨hresults, h⟩ := hm
        rw [← hresults]
        refine h.load (Nat.le_of_eq hw.symm) (Nat.le_of_eq hw'.symm) _ fun a b h hslots => ?_
        obtain ⟨t, ht⟩ := record_ok a fun _ =>
          .tailCall target.kind m.thread.results.values.length
        obtain ⟨t', ht'⟩ := record_ok b fun _ =>
          .tailCall target.kind m.thread.results.values.length
        refine Follows.steps ht ht' ?_
        refine invoke_follows hreq ih hlevels hfuel.step (h.setTrace t t') ?_ ?_ ?_ ?_ target
        · exact hw
        · exact hw'
        · rfl
        · exact hslots

/-- **Requests with pauses.** Requests of a program follow themselves, whatever fuel they have. -/
theorem answered (D : Partner) (n : Nat) : Answered D n := by
  induction n with
  | zero =>
    intro κ n' window window' a b asked target hlevels _ _ _
    exact .of_spent (hlevels.spent (.inl rfl)) (fun _ => ⟨_, rfl⟩) fun hn' => hn' ▸ ⟨_, rfl⟩
  | succ n ih =>
    intro κ n' window window' a b asked target hlevels h htop hslots
    cases n' with
    | zero => exact .of_spent (hlevels.spent (.inr rfl)) nofun fun _ => ⟨_, rfl⟩
    | succ n' =>
      exact invoke_follows ih (drain_follows ih n' n') hlevels hlevels.fuels h rfl rfl htop hslots
        target

end ScriptCore
