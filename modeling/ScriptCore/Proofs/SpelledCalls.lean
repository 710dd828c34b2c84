import ScriptCore.Proofs.Counters
import ScriptCore.Proofs.KindredResumes
import ScriptCore.Proofs.Trampoline

/-!
# Calls spelled out

Functions that serve the same depart, entered (`runFunction_departs`) and re-entered
(`reenterFunction_departs`), and so do the calls around them (`invoke_departs`, `reenter_departs`).
What a call owes is carried out by the drain behind it (`owed_abides`), and other tail calls by both
drains (`drain_abides`).

The right run nests deeper, by one call for each tail call that it has spelled out, and the left run
drains longer. So each side needs some fuel for what the other one does: by induction on the nesting
of the right run all requests are mirrored if that suffices (`mirrors`).
-/

namespace ScriptCore

open Machine

variable {side : Side} {ds : Depths} {heard : Prop} {a b : Machine Empty PUnit} {w w' : View}

/-! ## Counted calls -/

namespace Kindred

theorem entered (h : Kindred ds heard a b) (hroom : ds.right < ds.limit) :
    Kindred ds.entered heard (entered a) (entered b) :=
  { h with
    leftDepth := congrArg (· + 1) h.leftDepth
    rightDepth := congrArg (· + 1) h.rightDepth
    inLimit := hroom
    coroutines := fun co => (h.coroutines co).mono (fun _ _ => .same _) fun _ _ => .same _ }

theorem leave (h : Kindred ds.entered heard a b) : Kindred ds heard (leave a) (leave b) :=
  { h with
    leftDepth := congrArg (· - 1) h.leftDepth
    rightDepth := congrArg (· - 1) h.rightDepth
    inLimit := Nat.le_of_succ_le h.inLimit
    coroutines := fun co => (h.coroutines co).mono (fun _ _ => .same _) fun _ _ => .same _ }

/-- The left call is left first. -/
theorem leaveLeft (h : Kindred (ds.entered.below 0) heard a b) :
    Kindred (ds.below 1) heard (Machine.leave a) b :=
  { h with
    leftDepth := congrArg (· - 1) h.leftDepth
    coroutines := fun co => (h.coroutines co).mono (fun _ _ => .same _) fun _ _ => .same _ }

end Kindred

theorem Fallen.leave {e e' : Unwind} (h : Fallen ds.entered e e' a b) :
    Fallen ds e e' (leave a) (leave b) where
  toKindred := h.toKindred.leave
  restates := h.restates
  threads s s' hs hs' := (h.threads s s' hs hs').mono (fun _ _ => .same _) fun _ _ => .same _

/-! ## Stack overflows -/

section Halting

variable {α β : Type} {Q : α → β → Machine Empty PUnit → Machine Empty PUnit → Prop}
variable {x : M Empty PUnit α} {y : M Empty PUnit β}

/-- A stack overflow on the right is one where the run is given up. -/
theorem Abides.halts {r : EStateM.Result Unwind (Machine Empty PUnit) α}
    (h : Abides side (Fallen ds) Q r (y b)) : Abides side (Fallen ds) Q r (halting y b) := by
  obtain ⟨b', hspent⟩ | hkept := halting_outlasts y b
  · rw [hspent]
    exact .spent .overflow
  · rw [hkept]
    exact h

theorem Unwind.Restates.halted {e e' : Unwind} (h : e.Restates e') :
    e'.halted = .overflow ∨ e.halted = e ∧ e'.halted = e' := by
  cases h with
  | fault f => exact (Unwind.fault f).halted_cases.imp (fun ⟨_, _, h⟩ => h) fun h => ⟨h, h⟩
  | suspend | append => exact .inr ⟨rfl, rfl⟩

/-- Both runs are given up at stack overflows. -/
theorem Abides.halts_both (h : Abides side (Fallen ds) Q (x a) (y b)) :
    Abides side (Fallen ds) Q (halting x a) (halting y b) := by
  generalize hx : x a = r, hy : y b = r' at h
  cases h with
  | ok h =>
    rw [halting_of_ok hx, halting_of_ok hy]
    exact .ok h
  | error h =>
    rw [halting_of_error hx, halting_of_error hy]
    obtain heq | ⟨heq, heq'⟩ := h.restates.halted
    · rw [heq]
      exact .spent .overflow
    · rw [heq, heq']
      exact .error h
  | spent h =>
    cases h with
    | overflow =>
      rw [halting_of_error hy]
      exact .spent .overflow
    | left =>
      rw [halting_of_error hx]
      exact .spent .left
    | right =>
      rw [halting_of_error hy]
      exact .spent .right

end Halting

section Calls

variable {P P' : Perform Empty PUnit} {k n : Nat}

/-! ## Functions -/

section Functions

variable (hp : Partners side ds P P') (hfuel : side.Fuels k n)

include hp hfuel

/-- **Functions.** A function of the same arguments. -/
theorem runFunction_departs (f : FnId) (h : Serving ds heard w w' a b)
    (hprovides : ∀ i, (a.heap.function f).arity.Provides i → i < w.top) :
    Departs side P' 0 ds (runFunction k P f w a) (runFunction n P' f w' b) := by
  obtain ⟨base, top⟩ := w
  obtain ⟨base', _⟩ := w'
  obtain rfl : top = _ := h.top
  unfold runFunction
  rw [functionAt_bind, functionAt_bind]
  have hcovers := h.covers f
  generalize ha : a.heap.function f = c, hb : b.heap.function f = d at hcovers hprovides
  cases hcovers with
  | closure orderly byValue hspelled cells cells' =>
    rename_i p q
    have hnests := hspelled.nests orderly byValue
    obtain ⟨hspells, -, -⟩ := hspelled
    rename_i cut
    exact enterBody_departs (s := ⟨f, p, q, cut, base, base'⟩) hp ⟨orderly, byValue, hspells, hnests⟩
      hfuel h (by rw [proto?, ha]; rfl) (by rw [proto?, hb]; rfl)
  | builtin c => exact .abides (runBuiltin_abides hp.mirrors c h hprovides)
  | protection p => exact .abides (protectedCall_abides hp h ha hb)
  | wrapped co => exact .abides (callWrapped_abides hp.mirrors co h)

/-- A function that a suspension left. -/
theorem reenterFunction_departs {l l' : Link} (h : Kindred ds heard a b) (hlink : Matches a b l l')
    {inner inner' : List Link} (hinner : Threaded a b inner inner') (values : List Val) (w w' : View) :
    Departs side P' 0 ds (reenterFunction k P l inner values w a)
      (reenterFunction n P' l' inner' values w' b) := by
  cases hlink with
  | body left right spells reaches hop may resembles =>
    rename_i f p q cut pc op saved saved'
    obtain ⟨cells, ha⟩ := closure_of_proto? left
    obtain ⟨cells', hb⟩ := closure_of_proto? right
    have hcovers := h.covers f
    rw [ha, hb] at hcovers
    cases hcovers with
    | closure orderly byValue hspelled =>
      rw [reenterFunction_body (by rw [ha]; rfl), reenterFunction_body (by rw [hb]; rfl)]
      exact reenterBody_departs (s := ⟨f, p, q, cut, w.base, w'.base⟩) hp
        ⟨orderly, byValue, spells, hspelled.nests orderly byValue⟩ hfuel h left right reaches hop may
        resembles hinner values
  | protection left right index saved =>
    unfold reenterFunction
    dsimp only
    rw [functionAt_bind, functionAt_bind, left, right]
    exact .abides (resumeProtected_abides hp h left right w w' index saved hinner values)

end Functions

/-! ## Calls -/

theorem Relayed.halts {r : EStateM.Result Unwind (Machine Empty PUnit) Unit}
    {y : M Empty PUnit Unit} (h : Relayed side n r (y b)) :
    Relayed side n r (halting y b) := by
  obtain ⟨b', hspent⟩ | hkept := halting_outlasts y b
  · rw [hspent]
    exact .spent fun _ => .overflow
  · rw [hkept]
    exact h

namespace Departs

variable {x y : M Empty PUnit Unit}

theorem halts {r : EStateM.Result Unwind (Machine Empty PUnit) Unit}
    (h : Departs side P' n ds r (y b)) : Departs side P' n ds r (halting y b) := by
  generalize hy : y b = r' at h
  cases h with
  | abides h =>
    subst hy
    exact .abides h.halts
  | owes results h carries relayed =>
    subst hy
    exact .owes results h carries relayed.halts

/-- Steps that end alike, and what follows them, up to a stack overflow. -/
theorem follow_halting {α β : Type} {Q : α → β → Machine Empty PUnit → Machine Empty PUnit → Prop}
    {x : M Empty PUnit α} {y : M Empty PUnit β} {f : α → M Empty PUnit Unit}
    {g : β → M Empty PUnit Unit} (h : Abides side (Fallen ds) Q (x a) (y b))
    (hf : ∀ u w a b, Q u w a b → Departs side P' n ds (f u a) (halting (g w) b)) :
    Departs side P' n ds ((x >>= f) a) (halting (y >>= g) b) := by
  rw [halting_bind]
  exact .follow h.halts hf

/-- Steps that end well, and what follows them, up to a stack overflow. -/
theorem steps_halting {α β : Type} {x : M Empty PUnit α} {y : M Empty PUnit β}
    {f : α → M Empty PUnit Unit} {g : β → M Empty PUnit Unit} {u : α} {v : β}
    {a' b' : Machine Empty PUnit} (hx : x a = .ok u a') (hy : y b = .ok v b')
    (h : Departs side P' n ds (f u a') (halting (g v) b')) :
    Departs side P' n ds ((x >>= f) a) (halting (y >>= g) b) := by
  rw [bind_of_ok hx, halting_bind, bind_of_ok (halting_of_ok hy)]
  exact h

/-- Functions that are left. What the left one owes is then carried out by its caller. -/
theorem leave (h : Departs side P' 0 ds.entered (x a) (y b)) :
    Departs side P' 1 ds (ensuring x leave a) (ensuring y leave b) := by
  have hrelayed : ∀ {r}, Relayed side 0 r (y b) → Relayed side 1 r (ensuring y Machine.leave b) :=
    Relayed.leave
  unfold ensuring at hrelayed ⊢
  generalize x a = r, y b = r' at h hrelayed
  cases h with
  | abides h =>
    refine .abides ?_
    cases h with
    | ok h => exact .ok h.leave
    | error h => exact .error h.leave
    | spent h =>
      cases h with
      | overflow => exact .spent .overflow
      | left => exact .spent .left
      | right => exact .spent .right
  | owes results h carries relayed => exact .owes results h.leaveLeft carries (hrelayed relayed)

/-- What is counted in and out as a call. -/
theorem counted (h : Kindred ds heard a b)
    (hxy : ds.right < ds.limit → Kindred ds.entered heard (entered a) (entered b) →
      Departs side P' 0 ds.entered (x (entered a)) (y (entered b))) :
    Departs side P' 1 ds ((do enter; ensuring x Machine.leave) a)
      (halting (do enter; ensuring y Machine.leave) b) := by
  rw [Regime.counted_eq, h.leftDepth, h.world.limits.depth, h.limit]
  have hright := Regime.counted_eq y b
  rw [h.rightDepth, h.limit] at hright
  by_cases hroom : ds.right < ds.limit
  · have hleft : ¬ ds.limit ≤ ds.left := Nat.not_le_of_lt (Nat.lt_of_le_of_lt ds.le hroom)
    rw [if_neg (Nat.not_le_of_lt hroom)] at hright
    rw [if_neg hleft]
    refine Departs.halts ?_
    rw [hright]
    exact (hxy hroom (h.entered hroom)).leave
  · rw [if_pos (Nat.le_of_not_lt hroom)] at hright
    rw [halting_of_error hright]
    exact .abides (.spent .overflow)

end Departs

section Engine

variable (hp : ds.right < ds.limit → Partners side ds.entered P P') (hfuel : side.Fuels k n)

include hp hfuel

/-- **Calls.** A call of one value with the same arguments. -/
theorem invoke_departs (target : Val) (h : Serving ds heard w w' a b) :
    Departs side P' 1 ds (invoke (runner k P) w target a)
      (halting (invoke (runner n P') w' target) b) := by
  obtain ⟨base, top⟩ := w
  obtain ⟨base', _⟩ := w'
  obtain rfl : top = _ := h.top
  let o : Origin Empty PUnit := .spelling (fun _ => false) (fun _ => False) heard a b base base'
  unfold invoke
  refine .steps_halting rfl rfl ?_
  rw [h.world.limits.chain]
  refine .follow_halting ((resolve_paired (o := o) target _).abides (Kindred.windows h)
    fun f _ _ hp => .ofFault (h.toKindred.go hp) f) fun found found' a' b' hfound => ?_
  obtain ⟨f, _⟩ := found
  obtain ⟨_, _⟩ := found'
  obtain ⟨rfl, i, rfl, rfl, hwindows⟩ := hfound
  refine .steps_halting rfl rfl ?_
  rw [← (hwindows.kin.functions f).arity_eq]
  -- shaping leaves the heap alone, so the function still has the arity it is shaped to
  have hshape := shape_paired (o := o) (a'.heap.function f).arity a' b' hwindows
  obtain ⟨j, s, x, ha⟩ := shape_ok (a'.heap.function f).arity ⟨o.leftBase, i⟩ a'
  obtain ⟨j', s', x', hb⟩ := shape_ok (a'.heap.function f).arity ⟨o.rightBase, i⟩ b'
  rw [ha, hb] at hshape
  obtain ⟨j, hargs, hargs', hprovides, hwindows⟩ := hshape
  cases hargs
  cases hargs'
  obtain ⟨t, ht⟩ := record_ok (a'.restack s x) fun _ =>
    .invoke (a'.heap.function f).name j a'.thread.depth
  obtain ⟨t', ht'⟩ := record_ok (b'.restack s' x') fun _ =>
    .invoke (b'.heap.function f).name j b'.thread.depth
  refine .steps_halting ha hb (.steps_halting rfl rfl (.steps_halting ht ht' ?_))
  have hserving : Serving ds heard ⟨base, j⟩ ⟨base', j⟩ (a'.restack s x) (b'.restack s' x') :=
    h.toKindred.serving hwindows
  refine .counted (hserving.toKindred.setTrace t t') fun hroom hentered => ?_
  exact runFunction_departs (hp hroom) hfuel f
    { hentered with top := rfl, slots := hserving.slots, plain := hserving.plain } hprovides

/-- A link that is re-entered. -/
theorem reenter_departs {l l' : Link} (h : Kindred ds heard a b) (hlink : Matches a b l l')
    {inner inner' : List Link} (hinner : Threaded a b inner inner') (values : List Val) (w w' : View) :
    Departs side P' 1 ds (reenter (runner k P) l inner values w a)
      (halting (reenter (runner n P') l' inner' values w') b) := by
  obtain ⟨t, ht⟩ := record_ok a fun _ =>
    .replay (a.heap.function l.function).name l.index inner.length
  obtain ⟨t', ht'⟩ := record_ok b fun _ =>
    .replay (b.heap.function l'.function).name l'.index inner'.length
  unfold reenter
  refine .steps_halting rfl rfl (.steps_halting ht ht' ?_)
  refine .counted (h.setTrace t t') fun hroom hentered => ?_
  exact reenterFunction_departs (hp hroom) hfuel hentered
    (hlink.mono (fun _ _ => .same _) fun _ _ => .same _)
    (hinner.mono (fun _ _ => .same _) fun _ _ => .same _) values w w'

end Engine

/-! ## Tail calls -/

/-- How many tail calls the left run must be able to drain where the right one has nested `n` calls
more. A left run that may end for want of fuel has no more than `k`. -/
def Side.Reserve : Side → Nat → Nat → Nat → Prop
  | .left, k, _, d => d ≤ k
  | .right, _, n, d => n * n ≤ d

theorem Side.Reserve.pred {d : Nat} (h : side.Reserve k (n + 1) d) : side.Reserve k n d := by
  cases side with
  | left => exact h
  | right => exact Nat.le_trans (Nat.mul_le_mul (Nat.le_succ n) (Nat.le_succ n)) h

/-- How many tail calls both runs must be able to drain behind a call. -/
def Side.Drains : Side → Nat → Nat → Nat → Nat → Prop
  | .left, k, _, d, j => d ≤ k ∧ d ≤ j
  | .right, _, n, d, j => j + n * n < d

/-- Either the run that may end for want of fuel has none left, or there is enough for one more tail
call. -/
theorem Side.Drains.cases {d j : Nat} (h : side.Drains k n d j) :
    (side = .left ∧ d = 0) ∨ ∃ d', d = d' + 1 ∧ side.Reserve k n d' ∧
      ((side = .right ∧ j = 0) ∨ ∃ j', j = j' + 1 ∧ side.Drains k n d' j') := by
  cases side with
  | left =>
    obtain ⟨hk, hj⟩ := h
    cases d with
    | zero => exact .inl ⟨rfl, rfl⟩
    | succ d =>
      obtain ⟨j, rfl⟩ := Nat.exists_eq_succ_of_ne_zero (Nat.ne_zero_of_lt hj)
      exact .inr ⟨d, rfl, Nat.le_of_succ_le hk, .inr ⟨j, rfl, Nat.le_of_succ_le hk,
        Nat.le_of_succ_le_succ hj⟩⟩
  | right =>
    have h : j + n * n < d := h
    obtain ⟨d, rfl⟩ := Nat.exists_eq_succ_of_ne_zero (Nat.ne_zero_of_lt h)
    have hd : n * n ≤ d := by omega
    refine .inr ⟨d, rfl, hd, ?_⟩
    cases j with
    | zero => exact .inl ⟨rfl, rfl⟩
    | succ j => exact .inr ⟨j, rfl, show j + n * n < d by omega⟩

namespace Kindred

variable {a' b' : Machine Empty PUnit} {base base' : Nat} {values : List Val}

/-- Both machines take the same tail call. -/
theorem taken (h : Kindred ds heard a b) (ha : a.Takes base values a') (hb : b.Takes base' values b') :
    Kindred ds True a' b' := by
  obtain ⟨s, t, -, rfl⟩ := ha.rest
  obtain ⟨s', t', -, rfl⟩ := hb.rest
  exact { h with
    results := fun _ => rfl
    coroutines := fun co => (h.coroutines co).mono (fun _ _ => .same _) fun _ _ => .same _ }

/-- Only the left machine takes a tail call. -/
theorem takenLeft (h : Kindred ds heard a b) (ha : a.Takes base values a') : Kindred ds False a' b := by
  obtain ⟨s, t, -, rfl⟩ := ha.rest
  exact { h with
    results := False.elim
    coroutines := fun co => (h.coroutines co).mono (fun _ _ => .same _) fun _ _ => .same _ }

/-- Windows that carry the same values serve the same. -/
theorem carried (h : Kindred ds heard a b) (hw : w.Carries a values) (hw' : w'.Carries b values) :
    Serving ds heard w w' a b :=
  { h with
    top := hw.top.trans hw'.top.symm
    slots := fun i hi => (hw.slots i (hw.top ▸ hi)).trans (hw'.slots i (hw.top ▸ hi)).symm
    plain := fun i hi => ⟨_, hw.slots i (hw.top ▸ hi)⟩ }

end Kindred

/-- What the left side owes is carried out by its drain. -/
theorem owed_abides {d : Nat} (hm : Mirrors side (ds.below 1) (step (runner k P) d) P') {target : Val}
    {values : List Val} {r' : EStateM.Result Unwind (Machine Empty PUnit) Unit}
    (results : a.thread.results = .tailCall target values) (h : Kindred (ds.below 1) False a b)
    (carries : w'.Carries b values) (relayed : Relayed side 1 (P' (.call w' target) b) r') (w : View) :
    Abides side (Fallen ds) (fun _ _ a b => Kindred ds True a b ∧ b.thread.results.Settled)
      (drain (runner k P) w (d + 1) a) r' := by
  obtain ⟨t, htaken, hcarries, hdrain⟩ := drain_taken results w
  rw [hdrain]
  exact relayed.abides (hm.call target ((h.takenLeft htaken).carried hcarries carries))

/-- An ending with results is not changed by a drain. -/
theorem Abides.drained {r : EStateM.Result Unwind (Machine Empty PUnit) Unit}
    {y : M Empty PUnit Unit} {j : Nat} (h : Abides side (Fallen ds)
      (fun _ _ a b => Kindred ds True a b ∧ b.thread.results.Settled) r (y b))
    (hj : side = .right ∧ j = 0 ∨ ∃ j', j = j' + 1) (w' : View) :
    Abides side (Fallen ds) (fun _ _ => Kindred ds True) r
      ((y >>= fun _ => halting (drain (runner n P') w' j)) b) := by
  generalize hy : y b = r' at h
  cases h with
  | ok h =>
    rw [bind_of_ok hy]
    obtain ⟨rfl, rfl⟩ | ⟨j, rfl⟩ := hj
    · exact .spent .right
    · rw [halting_of_ok (drain_idle _ h.2 w' j)]
      exact .ok h.1
  | error h =>
    rw [bind_of_error hy]
    exact .error h
  | spent h =>
    cases h with
    | overflow =>
      rw [bind_of_error hy]
      exact .spent .overflow
    | left => exact .spent .left
    | right =>
      rw [bind_of_error hy]
      exact .spent .right

/-- A call and the tail calls behind it: those that the left side owes, and those of both sides. -/
theorem Departs.drained {x y : M Empty PUnit Unit} {d j : Nat} (h : Departs side P' 1 ds (x a) (y b))
    (hd : side.Drains k n d j)
    (howed : ∀ d, side.Reserve k n d → Mirrors side (ds.below 1) (step (runner k P) d) P')
    (w w' : View) (hboth : ∀ a b, Kindred ds True a b →
      Abides side (Fallen ds) (fun _ _ => Kindred ds True) (drain (runner k P) w d a)
        (halting (drain (runner n P') w' j) b)) :
    Abides side (Fallen ds) (fun _ _ => Kindred ds True) ((x >>= fun _ => drain (runner k P) w d) a)
      ((y >>= fun _ => halting (drain (runner n P') w' j)) b) := by
  generalize hx : x a = r, hy : y b = r' at h
  cases h with
  | abides h =>
    subst hx hy
    exact h.bind fun _ _ a b hk => hboth a b hk
  | owes results h carries relayed =>
    rw [bind_of_ok hx]
    obtain ⟨rfl, rfl⟩ | ⟨d, rfl, hreserve, hj⟩ := hd.cases
    · exact .spent .left
    · have hends := owed_abides (howed d hreserve) results h carries relayed w
      subst hy
      exact hends.drained (hj.imp id fun ⟨j', hj', _⟩ => ⟨j', hj'⟩) w'

section Engine

variable (hp : ds.right < ds.limit → Partners side ds.entered P P') (hfuel : side.Fuels k n)
variable (howed : ∀ d, side.Reserve k n d → Mirrors side (ds.below 1) (step (runner k P) d) P')

include hp hfuel howed

/-- Pending tail calls. -/
theorem drain_abides {d j : Nat} (hd : side.Drains k n d j) (h : Kindred ds True a b) (w w' : View) :
    Abides side (Fallen ds) (fun _ _ => Kindred ds True) (drain (runner k P) w d a)
      (halting (drain (runner n P') w' j) b) := by
  induction j generalizing d a b w w' with
  | zero =>
    obtain ⟨rfl, rfl⟩ | ⟨d, rfl, -, ⟨rfl, -⟩ | ⟨j, hj, -⟩⟩ := hd.cases
    · exact .spent .left
    · exact .spent .right
    · cases hj
  | succ j ih =>
    obtain ⟨rfl, rfl⟩ | ⟨d, rfl, -, ⟨-, hj⟩ | ⟨_, hj, hd⟩⟩ := hd.cases
    · exact .spent .left
    · cases hj
    · cases hj
      cases hresults : a.thread.results with
      | mk values pending =>
        have hresults' := (h.results trivial).symm.trans hresults
        cases pending with
        | none =>
          rw [drain_values _ w d hresults, halting_of_ok (drain_values _ w' j hresults')]
          exact .ok h
        | some target =>
          obtain ⟨t, htaken, hcarries, hdrain⟩ := drain_taken hresults w
          obtain ⟨t', htaken', hcarries', hdrain'⟩ := drain_taken hresults' w'
          rw [hdrain, halting_congr (hdrain' _ j), halting_bind]
          have hserving := (h.taken htaken htaken').carried hcarries hcarries'
          exact (invoke_departs hp hfuel target hserving).drained hd howed _ _
            fun a b hk => ih hd hk _ _

end Engine

/-! ## Frames that pass results on -/

/-- A call more on the right. -/
theorem Kindred.enteredRight (h : Kindred ds heard a b) (hroom : ds.right < ds.limit)
    (t : Option (Array TraceEvent)) :
    Kindred (ds.below 1) heard a (Machine.entered { b with trace := t }) :=
  { h with
    rightDepth := congrArg (· + 1) h.rightDepth
    inLimit := hroom
    coroutines := fun co => (h.coroutines co).mono (fun _ _ => .same _) fun _ _ => .same _ }

theorem Kindred.restackRight (h : Kindred ds heard a b) (s : Stack) (t : Option (Array TraceEvent)) :
    Kindred ds heard a (b.restack s t) :=
  { h with
    coroutines := fun co => (h.coroutines co).mono (fun _ _ => .same _) fun _ _ => .same _ }

/-- A frame that the right side has alone is re-entered: the left side carries out what is pending
below it. -/
theorem relay_abides {Q : Perform Empty PUnit} (hm : Mirrors side (ds.below 1) Q P')
    (hp : ds.right < ds.limit → Partners side ds.entered P P') (hn : side = .left → 0 < n)
    (h : Kindred ds heard a b) {l' : Link} (hlink : b.Relays l') {inner inner' : List Link}
    (hinner : Threaded a b inner inner') (values : List Val) (w w' : View) :
    Abides side (Fallen ds) (fun _ _ a b => Kindred ds True a b ∧ b.thread.results.Settled)
      (Q (.replay inner values w) a) (halting (reenter (runner n P') l' inner' values w') b) := by
  obtain ⟨x, hx⟩ := record_ok b fun _ =>
    .replay (b.heap.function l'.function).name l'.index inner'.length
  have hrun : reenter (runner n P') l' inner' values w' b =
      (do enter; ensuring ((runner n P').rerun l' inner' values w') leave) { b with trace := x } :=
    bind_of_ok hx
  rw [Regime.counted_eq, h.rightDepth, h.limit] at hrun
  by_cases hroom : ds.right < ds.limit
  · rw [if_neg (Nat.not_le_of_lt hroom)] at hrun
    have hpartners := hp hroom
    have hrelays : (Machine.entered { b with trace := x }).Relays l' := hlink.mono fun _ _ => .same _
    obtain ⟨s, t, scratch, hrelayed⟩ := reenter_relayed hn hpartners.right hpartners.settles hrelays
      inner' values w'
    have hmirrored := hm.replay values w scratch ((h.enteredRight hroom x).restackRight s t)
      (hinner.mono (fun _ _ => .same _) fun _ _ => .same _)
    refine Relayed.abides (.halts ?_) hmirrored
    rw [hrun]
    exact hrelayed.leave
  · rw [if_pos (Nat.le_of_not_lt hroom)] at hrun
    rw [halting_of_error hrun]
    exact .spent .overflow

end Calls

/-! ## Requests -/

/-- Requests of a run that is given up at stack overflows restore what all requests do. -/
theorem roomy_restores (n : Nat) : Restores (roomy n) := fun request m u hu => by
  have hagrees := (Regime.free (F := Empty) (S := PUnit)).perform_agrees (fun _ _ _ _ => trivial) n []
    request
  refine Agrees.evolves hagrees trivial ?_
  obtain ⟨t, ht⟩ | heq := roomy_outlasts n request m
  · rw [ht] at hu
    exact hu.1.elim
  · rwa [heq] at hu

theorem roomy_settles {n : Nat} {request : Request} {m t : Machine Empty PUnit} {u : Unit}
    (h : roomy n request m = .ok u t) : t.thread.results.Settled := by
  obtain ⟨_, ht⟩ | heq := roomy_outlasts n request m
  · rw [ht] at h
    cases h
  · exact perform_settles (heq.symm.trans h)

/-- Runs on the left that are not given up at stack overflows, and those that are. -/
theorem Mirrors.halts {Q : Perform Empty PUnit} {n : Nat} (h : Mirrors side ds Q (roomy n)) :
    Mirrors side ds (fun request => halting (Q request)) (roomy n) where
  call target hserving := by
    have hends := (h.call target hserving).halts_both
    rwa [halting_roomy] at hends
  replay values w w' hkindred hthreaded := by
    have hends := (h.replay values w w' hkindred hthreaded).halts_both
    rwa [halting_roomy] at hends

theorem Mirrors.partners {k n : Nat} (h : Mirrors side ds (roomy k) (roomy n)) :
    Partners side ds (roomy k) (roomy n) :=
  ⟨h, roomy_restores k, roomy_restores n, roomy_settles⟩

/-- How much fuel the two sides must have. A right run that may end for want of fuel has so little
that the left one can drain all that the right one nests; otherwise it has enough for all calls up
to the limit, and for what the left run can do in any of them. -/
def Side.Supply : Side → Nat → Nat → Depths → Prop
  | .left, k, n, ds => ds.limit + k + 2 ≤ ds.right + n
  | .right, k, n, _ => n * n ≤ k

namespace Side.Supply

variable {k n d : Nat}

theorem succ_mul_succ (n : Nat) : (n + 1) * (n + 1) = n * n + 2 * n + 1 := by
  rw [Nat.add_mul, Nat.mul_add]
  omega

/-- What is left for a tail call that the right side nests. -/
theorem below (h : side.Supply k (n + 1) ds) : side.Supply k n (ds.below 1) := by
  have hsquare := succ_mul_succ n
  cases side with
  | left =>
    have h : ds.limit + k + 2 ≤ ds.right + (n + 1) := h
    show ds.limit + k + 2 ≤ ds.right + 1 + n
    omega
  | right =>
    have h : (n + 1) * (n + 1) ≤ k := h
    show n * n ≤ k
    omega

/-- What is left for a request that both sides nest. -/
theorem entered (h : side.Supply (k + 1) (n + 1) ds) :
    side.Supply k n ds.entered ∧ side.Reserve k n k := by
  have hsquare := succ_mul_succ n
  cases side with
  | left =>
    have h : ds.limit + (k + 1) + 2 ≤ ds.right + (n + 1) := h
    exact ⟨show ds.limit + k + 2 ≤ ds.right + 1 + n by omega, Nat.le_refl k⟩
  | right =>
    have h : (n + 1) * (n + 1) ≤ k + 1 := h
    have hle : n * n ≤ k := by omega
    exact ⟨hle, hle⟩

/-- Only the left run may be out of fuel. -/
theorem left_of_zero (h : side.Supply 0 (n + 1) ds) : side = .left := by
  cases side with
  | left => rfl
  | right => exact (Nat.not_succ_le_zero _ h).elim

theorem fuels (h : side.Supply k (n + 1) ds) (hlimit : ds.right ≤ ds.limit) : side.Fuels k n := by
  have hsquare := succ_mul_succ n
  cases side with
  | left =>
    have h : ds.limit + k + 2 ≤ ds.right + (n + 1) := h
    show k < n
    omega
  | right =>
    have h : (n + 1) * (n + 1) ≤ k := h
    have hn : n ≤ n * n + 2 * n := by omega
    show n ≤ k
    omega

theorem drains (h : side.Supply k (n + 1) ds) (hlimit : ds.right ≤ ds.limit)
    (hd : side.Reserve k (n + 1) d) : side.Drains k n d n := by
  have hsquare := succ_mul_succ n
  cases side with
  | left =>
    have h : ds.limit + k + 2 ≤ ds.right + (n + 1) := h
    have hd : d ≤ k := hd
    exact ⟨hd, by omega⟩
  | right =>
    have hd : (n + 1) * (n + 1) ≤ d := hd
    show n + n * n < d
    omega

end Side.Supply

/-- **Requests.** Requests that hand over the same to kindred machines end alike, if each side has
the fuel for what the other one does. -/
theorem mirrors {k n d : Nat} (hd : side.Reserve k n d) (hsupply : side.Supply k n ds) :
    Mirrors side ds (step (runner k (roomy k)) d) (roomy n) := by
  induction n generalizing k d ds with
  | zero =>
    have hspent : ∀ {heard : Prop} {a b : Machine Empty PUnit} {r : EStateM.Result Unwind _ Unit}
        (request : Request), Kindred ds heard a b →
        Abides side (Fallen ds) (fun _ _ => Kindred ds True) r (roomy 0 request b) := by
      intro heard a b r request h
      cases side with
      | left =>
        have hlimit := h.inLimit
        have hsupply : ds.limit + k + 2 ≤ ds.right + 0 := hsupply
        omega
      | right => exact .spent .right
    exact ⟨fun _ h => hspent _ h.toKindred, fun _ _ _ h _ => hspent _ h⟩
  | succ n ih =>
    have hp : ds.right < ds.limit → Partners side ds.entered (roomy k) (roomy n) := by
      refine fun _ => Mirrors.partners ?_
      cases k with
      | zero =>
        obtain rfl := hsupply.left_of_zero
        exact ⟨fun _ _ => .spent .left, fun _ _ _ _ _ => .spent .left⟩
      | succ k =>
        obtain ⟨hentered, hreserve⟩ := hsupply.entered
        exact (ih hreserve hentered).halts
    -- What a tail call owes is drained on the left after its frame has gone. On the right the
    -- frame is still there, and one more call is in progress.
    have howed : ∀ d, side.Reserve k n d →
        Mirrors side (ds.below 1) (step (runner k (roomy k)) d) (roomy n) :=
      fun d hd => ih hd hsupply.below
    constructor
    · intro heard w w' a b target h
      have hlimit := h.inLimit
      show Abides side _ _ _ (halting (invoke _ w' target >>= fun _ => drain _ w' n) b)
      rw [halting_bind]
      exact (invoke_departs hp (hsupply.fuels hlimit) target h).drained (hsupply.drains hlimit hd)
        howed w w' fun a b hk => drain_abides hp (hsupply.fuels hlimit) howed
          (hsupply.drains hlimit hd) hk w w'
    · intro heard links links' a b values w w' h hthreaded
      have hlimit := h.inLimit
      have hfuel := hsupply.fuels hlimit
      have hdrains := hsupply.drains hlimit hd
      cases hthreaded with
      | nil => exact (h.answers (giveAll_answers (Kindred.closed ds heard) values)).halts
      | cons hlink hinner =>
        rename_i l l' inner inner'
        show Abides side _ _ _
          (halting (reenter _ l' inner' values w' >>= fun _ => drain _ w' n) b)
        rw [halting_bind]
        exact (reenter_departs hp hfuel h hlink hinner values w w').drained hdrains howed w w'
          fun a b hk => drain_abides hp hfuel howed hdrains hk w w'
      | relay hlink hinner =>
        rename_i l' inner'
        show Abides side _ _ _
          (halting (reenter _ l' inner' values w' >>= fun _ => drain _ w' n) b)
        rw [halting_bind]
        exact (relay_abides (howed d hd.pred) hp hfuel.pos h hlink hinner values w w').drained
          hfuel.right_or_pos w'

/-- A left run, and a right one with enough fuel for all calls up to the limit. -/
theorem roomy_mirrors_left {k n : Nat} (h : ds.limit + k < ds.right + n) :
    Mirrors .left ds (roomy k) (roomy n) := by
  cases k with
  | zero => exact ⟨fun _ _ => .spent .left, fun _ _ _ _ _ => .spent .left⟩
  | succ k =>
    have hsupply : Side.left.Supply k n ds := show ds.limit + k + 2 ≤ ds.right + n by omega
    have hm : Mirrors .left ds (step (runner k (roomy k)) k) (roomy n) := mirrors (Nat.le_refl k) hsupply
    exact hm.halts

/-- A right run, and a left one with enough fuel to drain all that the right one nests. -/
theorem roomy_mirrors_right {k n : Nat} (h : n * n < k) : Mirrors .right ds (roomy k) (roomy n) := by
  obtain ⟨k, rfl⟩ := Nat.exists_eq_succ_of_ne_zero (Nat.ne_zero_of_lt h)
  have hle : n * n ≤ k := Nat.le_of_lt_succ h
  have hm : Mirrors .right ds (step (runner k (roomy k)) k) (roomy n) := mirrors hle hle
  exact hm.halts

end ScriptCore
