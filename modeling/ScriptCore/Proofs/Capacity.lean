import Mathlib.Tactic.SplitIfs
import ScriptCore.Proofs.Entries

/-!
# Room for calls

A growth takes the capacity of the stack from one number to another (`Stack.grown`). A call on a
window that is inside the stack grows it by the slots of the frame that it opens, and by nothing
else (`invoke_opens`), so where the frames of a run are is enough to know the capacity that it
leaves. A re-entry lays a saved frame out again (`rerun_opens`), and a native function has no frame
(`invoke_exact`).
-/

namespace ScriptCore

open Machine

variable {F S : Type}

/-! ## Capacity of the stack -/

namespace Stack

/-- The capacity of a stack of capacity `c` that provides `n` slots. -/
def grown (n c : Nat) : Nat := if n ≤ c then c else max (max n (2 * c)) 16

theorem capacity_growTo (s : Stack) (n : Nat) : (s.growTo n).capacity = grown n s.capacity := by
  unfold growTo grown
  split
  · rfl
  · simp only [capacity, Array.size_append, Array.size_replicate] at *
    omega

theorem le_grown (n c : Nat) : n ≤ grown n c := by
  unfold grown
  split <;> omega

theorem capacity_le_grown (n c : Nat) : c ≤ grown n c := by
  unfold grown
  split <;> omega

theorem grown_of_le {n c : Nat} (h : n ≤ c) : grown n c = c := if_pos h

/-- Slots for the arguments of a small frame and then for the frame are provided at once. -/
theorem grown_grown {k n c : Nat} (hk : k ≤ n) (hn : n ≤ 8) :
    grown n (grown k c) = if n ≤ c then c else 16 := by
  unfold grown
  split_ifs <;> omega

/-- The capacity of a stack of capacity `c` that provides some numbers of slots, one after the
other. -/
def grownAll (ns : List Nat) (c : Nat) : Nat := ns.foldl (fun c n => grown n c) c

@[simp] theorem grownAll_cons (n : Nat) (ns : List Nat) (c : Nat) :
    grownAll (n :: ns) c = grownAll ns (grown n c) := rfl

theorem le_grownAll (ns : List Nat) (c : Nat) : c ≤ grownAll ns c := by
  induction ns generalizing c with
  | nil => exact Nat.le_refl c
  | cons n ns ih => exact Nat.le_trans (capacity_le_grown n c) (ih _)

theorem grownAll_of_le {ns : List Nat} {c : Nat} (h : ∀ n ∈ ns, n ≤ c) : grownAll ns c = c := by
  induction ns with
  | nil => rfl
  | cons n ns ih =>
    rw [grownAll_cons, grown_of_le (h n List.mem_cons_self)]
    exact ih fun k hk => h k (List.mem_cons_of_mem n hk)

theorem mem_le_grownAll {ns : List Nat} {n : Nat} (h : n ∈ ns) (c : Nat) : n ≤ grownAll ns c := by
  induction ns generalizing c with
  | nil => cases h
  | cons k ns ih =>
    rcases List.mem_cons.1 h with rfl | h
    · exact Nat.le_trans (le_grown n c) (le_grownAll ns _)
    · exact ih h _

/-- What was provided once is there. -/
theorem grownAll_grownAll (ns : List Nat) (c : Nat) :
    grownAll ns (grownAll ns c) = grownAll ns c :=
  grownAll_of_le fun _ h => mem_le_grownAll h c

/-- Behind its end a stack holds nils. -/
theorem lt_capacity_of_slot {s : Stack} {i : Nat} (h : s.slot i ≠ Slot.nil) : i < s.capacity := by
  refine Nat.lt_of_not_le fun hle => h ?_
  rw [slot, Array.getD_eq_getD_getElem?, Array.getElem?_eq_none hle]
  rfl

end Stack

namespace View

variable (w : View) (s : Stack)

theorem capacity_load (vs : List Val) :
    (w.load s vs).2.capacity = Stack.grown (w.base + vs.length) s.capacity := by
  rw [← Stack.capacity_growTo]
  simp [load, Stack.capacity, growTo]

theorem capacity_restore (saved : List Slot) :
    (w.restore s saved).capacity = Stack.grown (w.base + saved.length) s.capacity := by
  rw [← Stack.capacity_growTo]
  simp [restore, Stack.capacity, growTo]

theorem capacity_clearRange (first last : Nat) : (w.clearRange s first last).capacity =
    if last ≤ first then s.capacity else Stack.grown (w.base + last) s.capacity := by
  unfold clearRange
  split
  · rfl
  · rw [← Stack.capacity_growTo]
    simp [Stack.capacity, growTo]

theorem fit_of_le {n : Nat} (h : n ≤ w.top) : w.fit s n = (⟨w.base, n⟩, s) :=
  if_neg (Nat.not_lt.2 h)

variable {w}

/-- A window whose last live slot is not nil is inside the stack. -/
theorem room_of_live {m : Machine F S} {args : List Val} {v : Val} (h : w.live m = args)
    (hlast : args.getLast? = some v) (hv : v ≠ .nil) :
    w.base + w.top ≤ m.thread.stack.capacity := by
  obtain ⟨vs, rfl⟩ := List.getLast?_eq_some_iff.1 hlast
  have htop := top_of_live h
  rw [List.length_append, List.length_singleton] at htop
  have hlast : (w.live m)[vs.length]? = some v := by rw [h]; simp
  obtain ⟨hi, hget⟩ := List.getElem?_eq_some_iff.1 hlast
  rw [getElem_live, get] at hget
  have hslot : m.thread.stack.slot (w.base + vs.length) ≠ Slot.nil := by
    intro hnil
    rw [slot_eq, hnil] at hget
    exact hv hget.symm
  have hin := Stack.lt_capacity_of_slot hslot
  omega

end View

/-! ## One call -/

section Opening

variable {m : Machine F S} {layout : Layout} {w : View} {args : List Val}

/-- A frame on a window with all its arguments takes the room of its slots. -/
theorem openFrame_full (htop : layout.params ≤ w.top) (hlive : w.live m = layout.arity.fit args)
    (hroom : w.base + layout.params ≤ m.thread.stack.capacity) : ∃ frame s t,
      openFrame layout w m = .ok frame (m.restack s t) ∧
      (m.restack s t).Fresh layout args frame ∧ frame.view.base = w.base ∧
      s.capacity = Stack.grown (w.base + layout.slots) m.thread.stack.capacity := by
  obtain ⟨frame, s, t, hopen, hfresh⟩ := openFrame_fresh hlive
  refine ⟨frame, s, t, hopen, hfresh, ?_⟩
  obtain ⟨t', hframe⟩ := openFrame_ok layout w m
  cases hframe.symm.trans hopen
  refine ⟨rfl, (View.capacity_clearRange ..).trans ?_⟩
  rw [View.fit_of_le w _ htop]
  split
  · exact (Stack.grown_of_le (show w.base + layout.slots ≤ m.thread.stack.capacity by omega)).symm
  · rfl

/-- Arguments for all parameters of a body are brought to its arity where they are. -/
theorem shape_full (layout : Layout) (w : View) (m : Machine F S) (h : layout.params ≤ w.top) :
    ∃ w' t, shape layout.arity w m = .ok w' (m.restack m.thread.stack t) ∧ w'.base = w.base ∧
      layout.params ≤ w'.top ∧
      w'.live (m.restack m.thread.stack t) = layout.arity.fit (w.live m) := by
  obtain ⟨w', s, t, hshape, hlive⟩ := shape_live layout.arity w m
  cases harity : layout.arity with
  | variadic =>
    rw [harity] at hshape hlive
    exact ⟨w, m.trace, rfl, rfl, h, rfl⟩
  | fixed n =>
    have hn : n = layout.params := by
      unfold Layout.arity Arity.ofParams at harity
      split at harity
      · cases harity
      · split at harity
        · exact (Arity.fixed.inj harity).symm
        · cases harity
    subst hn
    obtain ⟨t', ht'⟩ := onStack_ok (w.fit · layout.params) m
    rw [View.fit_of_le w _ h] at ht'
    rw [harity] at hshape hlive
    cases ht'.symm.trans hshape
    exact ⟨⟨w.base, layout.params⟩, _, ht', rfl, Nat.le_refl _, hlive⟩

end Opening

/-- Steps that end alike are counted out alike. -/
theorem ensuring_at {α : Type} {x y : M F S α} {after : Machine F S → Machine F S}
    {m t : Machine F S} (h : x m = y t) : ensuring x after m = ensuring y after t := by
  unfold ensuring
  rw [h]

/-- **One call.** A call of a function with a body, on a window with arguments for all parameters,
of which the last is not nil, opens a frame at the base of the window, and provides its slots. -/
theorem invoke_opens [HostBody F S] {m : Machine F S} {f : FnId} {layout : Layout} {w : View}
    {args : List Val} {last : Val} (harity : (m.heap.function f).arity = layout.arity)
    (hlive : w.live m = args) (hparams : layout.params ≤ args.length)
    (hlast : args.getLast? = some last) (hnil : last ≠ .nil) : ∃ frame s t,
      (entered (m.restack s t)).Fresh layout args frame ∧ frame.view.base = w.base ∧
      s.capacity = Stack.grown (w.base + layout.slots) m.thread.stack.capacity ∧
      ∀ {n P name body}, (m.heap.function f).body? n P f = some (name, layout, body) →
        m.thread.depth < m.world.config.maxCallDepth → invoke (runner n P) w (.fn f) m =
          ensuring (runBody f body frame) leave (entered (m.restack s t)) := by
  have htop : layout.params ≤ w.top := by rwa [View.top_of_live hlive]
  have hroom := View.room_of_live hlive hlast hnil
  have hresolve : resolve w (.fn f) m.world.config.maxMetaChain m = .ok (f, w) m := by
    rw [resolve_fn]
    rfl
  obtain ⟨w', t, hfit, hbase, htop', hfitted⟩ := shape_full layout w m htop
  obtain ⟨_, u, x, hshape, hinvoke⟩ := Regime.invoke_resolved hresolve
  rw [harity] at hshape
  cases hfit.symm.trans hshape
  let v := entered (m.restack m.thread.stack x)
  have hlive' : w'.live v = layout.arity.fit args := hlive ▸ hfitted
  obtain ⟨frame, s, y, hopen, hfresh, hframe, hcapacity⟩ :=
    openFrame_full (m := v) htop' hlive' (show _ ≤ m.thread.stack.capacity by omega)
  rw [hbase] at hframe hcapacity
  refine ⟨frame, s, y, hfresh, hframe, hcapacity, fun {n P name body} hbody hdepth => ?_⟩
  have hrun : runFunction n P f w' v = runBody f body frame (entered (m.restack s y)) :=
    (runFunction_body (m := v) hbody w').trans (bind_of_ok hopen)
  refine (hinvoke (runner n P)).trans ((Regime.counted_eq ..).trans ?_)
  exact (if_neg (Nat.not_le.2 hdepth)).trans (ensuring_at hrun)

/-! ## One re-entry -/

/-- A frame that is laid out again holds what was saved, and takes the room of it and of its
slots. -/
theorem reopen_grows {α : Type} (layout : Layout) (w : View) (index : Nat) (saved : Saved)
    (m : Machine F S) : ∃ s t,
      (∀ i, s.slot i = (w.restore m.thread.stack saved.slots).slot i) ∧
      s.capacity = Stack.grownAll
        [w.base + saved.slots.length, w.base + saved.top, w.base + layout.slots]
        m.thread.stack.capacity ∧
      ∀ k : Frame → View → M F S α,
        (do
          let frame ← reopenFrame layout w index saved
          let scratch ← Body.scratchOf frame
          k frame scratch) m =
        k ⟨⟨w.base, saved.top⟩, index, layout.slots, saved.varargs⟩
          ⟨w.base + layout.slots, 0⟩ (m.restack s t) := by
  refine ⟨_, _, fun i => ?_, ?_, fun k => rfl⟩
  · simp only [View.slot_growTo]
  · refine (Stack.capacity_growTo ..).trans (congrArg (Stack.grown _) ?_)
    exact (Stack.capacity_growTo ..).trans (congrArg (Stack.grown _) (View.capacity_restore ..))

/-- **One re-entry.** A function with a body that is entered again lays its frame out again, has the
links below it replayed above the frame, and goes on with its body. -/
theorem rerun_opens [HostBody F S] {m : Machine F S} {n : Nat} {P : Perform F S} {f : FnId}
    {name : String} {layout : Layout} {body : Body F S Unit} {index : Nat}
    (hbody : (m.heap.function f).body? n P f = some (name, layout, body)) (hindex : index ≠ 0)
    (saved : Saved) (w : View) : ∃ s t,
      (∀ i, s.slot i = (w.restore m.thread.stack saved.slots).slot i) ∧
      s.capacity = Stack.grownAll
        [w.base + saved.slots.length, w.base + saved.top, w.base + layout.slots]
        m.thread.stack.capacity ∧
      ∀ inner values, (runner n P).rerun ⟨f, index, saved⟩ inner values w m =
        leaveBody f ((do
          Body.lift (P (.replay inner values ⟨w.base + layout.slots, 0⟩))
          body : Body F S Unit)
          ⟨⟨⟨w.base, saved.top⟩, index, layout.slots, saved.varargs⟩, m.restack s t⟩) := by
  obtain ⟨s, t, hslots, hcapacity, hopen⟩ := reopen_grows (α := Unit) layout w index saved m
  refine ⟨s, t, hslots, hcapacity, fun inner values => ?_⟩
  refine (reenterFunction_body hbody inner values w).trans ?_
  rw [reenterBody_eq _ _ _ _ _ _ hindex, hopen, continueBody_eq]

/-- A re-entry for which there is room is counted. -/
theorem reenter_counted [HostBody F S] {m : Machine F S} (link : Link) (inner : List Link)
    (values : List Val) (w : View) (hdepth : m.thread.depth < m.world.config.maxCallDepth) :
    ∃ t, ∀ r : Runner F S, reenter r link inner values w m =
      ensuring (r.rerun link inner values w) leave (entered { m with trace := t }) := by
  obtain ⟨t, ht⟩ := record_ok m fun _ =>
    .replay (m.heap.function link.function).name link.index inner.length
  refine ⟨t, fun r => (bind_of_ok ht).trans ((Regime.counted_eq ..).trans ?_)⟩
  exact if_neg (Nat.not_le.2 hdepth)

/-! ## Calls of native functions -/

section Natives

variable {m : Machine F S} {w : View}

/-- The value at a live index of a window. -/
theorem valueAt_live {i : Nat} {v : Val} (h : (w.live m)[i]? = some v) :
    valueAt w i m = .ok v m := by
  obtain ⟨hi, rfl⟩ := List.getElem?_eq_some_iff.1 h
  exact congrArg (EStateM.Result.ok · m) (View.getElem_live hi).symm

/-- A window with as many values as an arity asks for is left as it is. -/
theorem shape_exact {arity : Arity} (h : arity = .variadic ∨ arity = .fixed w.top)
    (m : Machine F S) : ∃ t, shape arity w m = .ok w (m.restack m.thread.stack t) := by
  rcases h with rfl | rfl
  · exact ⟨m.trace, rfl⟩
  · obtain ⟨t, ht⟩ := onStack_ok (w.fit · w.top) m
    rw [View.fit_of_le w _ (Nat.le_refl _)] at ht
    exact ⟨t, ht⟩

variable [HostBody F S] {f : FnId}

/-- A function with as many arguments as it takes is run where they are. -/
theorem invoke_exact (harity : (m.heap.function f).arity = .variadic ∨
      (m.heap.function f).arity = .fixed w.top)
    (hdepth : m.thread.depth < m.world.config.maxCallDepth) : ∃ t, ∀ r : Runner F S,
      invoke r w (.fn f) m =
        ensuring (r.run f w) leave (entered (m.restack m.thread.stack t)) := by
  have hresolve : resolve w (.fn f) m.world.config.maxMetaChain m = .ok (f, w) m := by
    rw [resolve_fn]
    rfl
  obtain ⟨args, u, t, hshape, hinvoke⟩ := Regime.invoke_resolved hresolve
  obtain ⟨x, hexact⟩ := shape_exact harity m
  cases hexact.symm.trans hshape
  refine ⟨t, fun r => (hinvoke r).trans ((Regime.counted_eq ..).trans ?_)⟩
  exact if_neg (Nat.not_le.2 hdepth)

/-- A call for which there is no room. -/
theorem perform_full (hfull : m.world.config.maxCallDepth ≤ m.thread.depth) (w : View)
    (f : FnId) (fuel : Nat) : ∃ s t, perform (fuel + 1) (.call w (.fn f)) m =
      .error (.fault (.stackOverflow m.thread.depth)) (m.restack s t) := by
  obtain ⟨_, s, t, -, hinvoke⟩ := invoke_runs (m := m) (.here f) (Nat.zero_le _) w
  exact ⟨s, t, bind_of_error ((hinvoke _).trans (if_pos hfull))⟩

/-- A library function that gives values leaves the stack to its caller as it was. -/
theorem perform_builtin {b : Builtin} {values : List Val}
    (hf : m.heap.function f = .builtin b) (harity : b.arity = .variadic ∨ b.arity = .fixed w.top)
    (hdepth : m.thread.depth < m.world.config.maxCallDepth)
    (hrun : ∀ (P : Perform F S) t, runBuiltin P b w (entered (m.restack m.thread.stack t)) =
      .ok () ((entered (m.restack m.thread.stack t)).withResults values)) (fuel : Nat) :
    ∃ t, perform (fuel + 2) (.call w (.fn f)) m =
      .ok () ((m.restack m.thread.stack t).withResults values) := by
  obtain ⟨t, hinvoke⟩ := invoke_exact (by rw [hf]; exact harity) hdepth
  let r := runner (fuel + 1) (perform (fuel + 1) : Perform F S)
  let u := entered (m.restack m.thread.stack t)
  have hend : r.run f w u = .ok () (u.withResults values) := by
    show runFunction (fuel + 1) (perform (fuel + 1)) f w u = _
    unfold runFunction
    rw [functionAt_bind, show u.heap.function f = .builtin b from hf]
    exact hrun _ t
  have hcall : invoke r w (.fn f) m = .ok () ((m.restack m.thread.stack t).withResults values) :=
    (hinvoke r).trans (ensuring_ok hend)
  exact ⟨t, (bind_of_ok hcall).trans (drain_values r w fuel rfl)⟩

end Natives

end ScriptCore
