import ScriptCore.Proofs.Kindred
import ScriptCore.Proofs.TableOperations

/-!
# Calls that are spelled out

A tail call leaves its target and the arguments in the channel, and whoever has called the body
carries it out (`Interpreter.execute_tailCall`). The call that spells it out is carried out by the
body itself (`Interpreter.prepare_call_eq`), which then returns all results; that adds nothing but a
frame that passes them on (`Interpreter.passes_on`).

`Departs` compares the ending of a function with that of the function spelled out: either they
abide, or the left one *owes* a tail call that the right one has carried out by itself.
-/

namespace ScriptCore

open Machine

/-! ## Passing on -/

/-- The machine `m'` is `m` with `n` calls less in progress, but for the stack and the trace. -/
structure Machine.Passed (n : Nat) (m m' : Machine Empty PUnit) : Prop where
  heap : m'.heap = m.heap
  world : m'.world = m.world
  results : m'.thread.results = m.thread.results
  depth : m'.thread.depth = m.thread.depth - n
  boundaries : m'.thread.boundaries = m.thread.boundaries
  current : m'.thread.current = m.thread.current
  output : m'.output = m.output
  journal : m'.journal = m.journal

namespace Machine.Passed

variable {n k : Nat} {ds : Depths} {heard : Prop} {a m m' m'' : Machine Empty PUnit}

theorem refl (m : Machine Empty PUnit) : m.Passed 0 m := ⟨rfl, rfl, rfl, rfl, rfl, rfl, rfl, rfl⟩

theorem setTrace (h : m.Passed n m') (t : Option (Array TraceEvent)) :
    m.Passed n { m' with trace := t } := { h with }

theorem leave (h : m.Passed n m') : m.Passed (n + 1) (leave m') :=
  { h with depth := (congrArg (· - 1) h.depth).trans (Nat.sub_sub ..) }

theorem keeps (h : m.Passed n m') : m.Keeps m' := fun f _ => by
  rw [Heap.function, Heap.function, h.heap]
  exact .same _

theorem kindred (h : m.Passed n m') (hk : Kindred (ds.below n) heard a m) : Kindred ds heard a m' where
  tables := hk.tables.trans (congrArg Heap.tables h.heap).symm
  cells := hk.cells.trans (congrArg Heap.cells h.heap).symm
  count := hk.count.trans (congrArg (fun heap => heap.functions.size) h.heap).symm
  functions f := by
    rw [h.heap]
    exact hk.functions f
  world := by
    rw [h.world]
    exact hk.world
  output := hk.output.trans h.output.symm
  journal := hk.journal.trans h.journal.symm
  results hheard := (hk.results hheard).trans h.results.symm
  leftDepth := hk.leftDepth
  rightDepth := by
    rw [h.depth, hk.rightDepth]
    exact Nat.add_sub_cancel ..
  limit := (congrArg (·.config.maxCallDepth) h.world).trans hk.limit
  inLimit := Nat.le_trans (Nat.le_add_right ..) hk.inLimit
  boundaries := hk.boundaries.trans h.boundaries.symm
  current := hk.current.trans h.current.symm
  covers f := by
    rw [h.heap]
    exact hk.covers f
  coroutineCount := hk.coroutineCount.trans (congrArg (fun heap => heap.coroutines.size) h.heap).symm
  coroutines co := by
    rw [h.heap]
    exact (hk.coroutines co).mono (.refl a) h.keeps

end Machine.Passed

/-- The right ending is the left one, passed on by a frame of its own: that returns all results, or
is one more frame that a suspension leaves. -/
inductive Relayed (side : Side) (n : Nat) : EStateM.Result Unwind (Machine Empty PUnit) Unit →
    EStateM.Result Unwind (Machine Empty PUnit) Unit → Prop
  | ok {m m' : Machine Empty PUnit} (settled : m.thread.results.Settled) (h : m.Passed n m') :
    Relayed side n (.ok () m) (.ok () m')
  | suspend {s : Suspension} {link : Link} {m m' : Machine Empty PUnit} (h : m.Passed n m')
    (relays : m'.Relays link) :
    Relayed side n (.error (.suspend s) m) (.error (.suspend ⟨s.values, link :: s.chain⟩) m')
  | error {e : Unwind} {m m' : Machine Empty PUnit} (he : e.Plain) (h : m.Passed n m') :
    Relayed side n (.error e m) (.error e m')
  | spent {r r' : EStateM.Result Unwind (Machine Empty PUnit) Unit}
    (h : ∀ l : EStateM.Result Unwind (Machine Empty PUnit) Unit, side.Spent l r') :
    Relayed side n r r'

namespace Relayed

variable {n : Nat} {ds : Depths} {r r' r'' : EStateM.Result Unwind (Machine Empty PUnit) Unit}
variable {side : Side}

/-- What abides by an ending abides by the ending passed on. Results that were passed on are no tail
call. -/
theorem abides (h : Relayed side n r' r'')
    (hr : Abides side (Fallen (ds.below n)) (fun _ _ => Kindred (ds.below n) True) r r') :
    Abides side (Fallen ds) (fun _ _ a b => Kindred ds True a b ∧ b.thread.results.Settled)
      r r'' := by
  cases h with
  | spent h => exact .spent (h r)
  | ok settled h =>
    cases hr with
    | ok hk =>
      refine .ok ⟨h.kindred hk, ?_⟩
      rw [h.results]
      exact settled
    | spent hspent =>
      cases hspent
      exact .spent .left
  | suspend h relays =>
    cases hr with
    | error hk =>
      rename_i e a
      have hrestates := hk.restates
      cases hrestates with
      | suspend values =>
        refine .error ⟨h.kindred hk.toKindred, .suspend values, fun s s' hs hs' => ?_⟩
        cases hs
        cases hs'
        exact .relay relays ((hk.threads _ _ rfl rfl).mono (.refl a) h.keeps)
    | spent hspent =>
      cases hspent
      exact .spent .left
  | error he h =>
    cases hr with
    | error hk =>
      refine .error ⟨h.kindred hk.toKindred, hk.restates, fun s s' _ hs' => ?_⟩
      subst hs'
      exact he.elim
    | spent hspent =>
      cases hspent with
      | overflow => exact .spent .overflow
      | left => exact .spent .left
      | right => exact .spent .right

/-- A call around a frame that passes results on is counted out. -/
theorem leave {x : M Empty PUnit Unit} {m : Machine Empty PUnit} (h : Relayed side n r (x m)) :
    Relayed side (n + 1) r (ensuring x leave m) := by
  unfold ensuring
  generalize x m = r' at h
  cases h with
  | ok settled h => exact .ok settled h.leave
  | suspend h relays => exact .suspend h.leave relays
  | error he h => exact .error he h.leave
  | spent h =>
    refine .spent fun l => ?_
    have hl := h l
    cases hl with
    | overflow => exact .overflow
    | left => exact .left
    | right => exact .right

end Relayed

/-! ## Both forms of a call -/

theorem Proto.next?_of_check {p : Proto} {pc : Nat} {r : Reg} {count : Count}
    (h : p.checkSpanAfter pc r count = .ok ()) : Reg.next? r = some (r.toNat + 1) := by
  unfold checkSpanAfter at h
  unfold Reg.next? at h ⊢
  split at h
  · rename_i hnext
    split at hnext
    · exact if_pos ‹_›
    · cases hnext
  · cases h

namespace Interpreter

variable {P : Perform Empty PUnit} (function : FnId) {p q : Proto} {pc : Nat}
variable {func : Reg} {args : Count} (frame : Frame) (m : Machine Empty PUnit)

/-- The arguments of a call. -/
def arguments (func : Reg) (args : Count) (frame : Frame) (m : Machine Empty PUnit) : List Val :=
  frame.view.values m.thread.stack m.heap.cells (func.toNat + 1)
    (args.last (func.toNat + 1) frame.view.top)

/-- A tail call leaves its target and its arguments in the channel. -/
theorem execute_tailCall (hnext : Reg.next? func = some (func.toNat + 1)) :
    execute P function p pc (.tailCall func args) ⟨frame, m⟩ = .ok .done ⟨frame, { m with
      thread := { m.thread with
        results := .tailCall (frame.view.get m.thread.stack m.heap.cells func.toNat)
          (arguments func args frame m) } }⟩ := by
  unfold execute
  dsimp only
  rw [hnext]
  cases args <;> rfl

/-- A call asks for its target on a window over its arguments. -/
theorem prepare_call_eq (q : Proto) (pc : Nat) (args : Count)
    (hnext : Reg.next? func = some (func.toNat + 1)) (results : Count) :
    ∃ t, prepare function q pc (.call func args results) ⟨frame, m⟩ =
      .ok (.ask ⟨frame.view.base + (func.toNat + 1), args.last (func.toNat + 1) frame.view.top -
          (func.toNat + 1)⟩ (frame.view.get m.thread.stack m.heap.cells func.toNat))
        ⟨{ frame with index := pc + 1 }, m.restack ((frame.view.child (func.toNat + 1)).growTo
          m.thread.stack (args.last (func.toNat + 1) frame.view.top - (func.toNat + 1))) t⟩ := by
  unfold prepare
  dsimp only
  rw [hnext]
  cases args <;> exact ⟨_, rfl⟩

/-! ## A frame that passes results on -/

/-- The values of registers that hold them. -/
theorem values_of_slots {view : View} {s : Stack} (cells : Array Val) {first : Nat} {vs : List Val}
    (h : ∀ i < vs.length, s.slot (view.base + (first + i)) = .value (vs.getD i .nil)) :
    view.values s cells first (first + vs.length) = vs := by
  unfold View.values
  rw [Nat.add_sub_cancel_left]
  refine List.ext_getElem (by simp) fun i hi hi' => ?_
  rw [List.getElem_map, List.getElem_range', Nat.one_mul, View.get, View.slot_eq, h i hi']
  simp [Slot.read, hi']

variable {m}

/-- All results of a call are stored, and then returned. -/
theorem relay_ok (hcall : q.code[pc]? = some (.call func args .open))
    (hret : q.code[pc + 1]? = some (.ret func .open)) (hsettled : m.thread.results.Settled)
    (fuel : Nat) :
    ∃ r, (do complete q pc; loop P function q fuel (pc + 1) : Body Empty PUnit Unit) ⟨frame, m⟩ = r ∧
      ((fuel = 0 ∧ ∃ s, r = .error .exhausted s) ∨
        ∃ s, r = .ok () s ∧ m.Passed 0 s.machine) := by
  refine ⟨_, rfl, ?_⟩
  obtain ⟨vs, hvs⟩ : ∃ vs, m.thread.results = .ofValues vs := by
    cases hresults : m.thread.results with
    | mk vs pending =>
      rw [Results.Settled, hresults] at hsettled
      obtain rfl : pending = none := hsettled
      exact ⟨vs, rfl⟩
  have hlist : Body.lift resultList (⟨frame, m⟩ : Active Empty PUnit) = .ok vs ⟨frame, m⟩ := by
    refine Body.lift_of_ok ?_
    show orViolate m.thread.results.read m = _
    rw [hvs]
    rfl
  obtain ⟨t, x, hset, hregs⟩ := setSlots_registers func.toNat vs ⟨frame, m⟩
  have hwritten : ∀ i < vs.length, t.slot (frame.view.base + (func.toNat + i)) =
      .value (vs.getD i .nil) := fun i hi => by
    rw [hregs, if_pos ⟨Nat.le_add_right .., Nat.add_lt_add_left hi _⟩, Nat.add_sub_cancel_left]
  obtain ⟨y, htop⟩ : ∃ y, Body.setTop (func.toNat + vs.length) ⟨frame, m.restack t x⟩ =
      .ok () ⟨{ frame with view := ⟨frame.view.base, func.toNat + vs.length⟩ },
        m.restack (frame.view.growTo t (func.toNat + vs.length)) y⟩ := ⟨_, rfl⟩
  have hcomplete : complete q pc ⟨frame, m⟩ =
      .ok () ⟨{ frame with view := ⟨frame.view.base, func.toNat + vs.length⟩ },
        m.restack (frame.view.growTo t (func.toNat + vs.length)) y⟩ := by
    unfold complete
    rw [hcall]
    exact (bind_of_ok hlist).trans ((bind_of_ok hset).trans htop)
  rw [bind_of_ok hcomplete]
  cases fuel with
  | zero => exact .inl ⟨rfl, _, rfl⟩
  | succ fuel =>
    refine .inr ⟨⟨{ frame with view := ⟨frame.view.base, func.toNat + vs.length⟩ },
      { m.restack (frame.view.growTo t (func.toNat + vs.length)) y with
        thread := { m.thread with
          results := .ofValues vs, stack := frame.view.growTo t (func.toNat + vs.length) } }⟩, ?_, ?_⟩
    · have hvalues : View.values ⟨frame.view.base, func.toNat + vs.length⟩
          (frame.view.growTo t (func.toNat + vs.length)) m.heap.cells func.toNat
          (func.toNat + vs.length) = vs :=
        values_of_slots _ fun i hi => (View.slot_growTo ..).trans (hwritten i hi)
      -- The return reads back what the completion has stored.
      have hspan := spanValues_ok func.toNat .open
        { frame with view := ⟨frame.view.base, func.toNat + vs.length⟩ }
        (m.restack (frame.view.growTo t (func.toNat + vs.length)) y)
      unfold loop
      rw [hret]
      dsimp only
      unfold execute
      dsimp only
      rw [bind_assoc]
      refine (bind_of_ok hspan).trans ?_
      have hlast : Count.open.last func.toNat (func.toNat + vs.length) = func.toNat + vs.length :=
        Nat.max_eq_left (Nat.le_add_right ..)
      dsimp only
      rw [hlast, restack_stack, show (m.restack _ y).heap.cells = m.heap.cells from rfl, hvalues]
      rfl
    · exact ⟨rfl, rfl, hvs.symm, rfl, rfl, rfl, rfl, rfl⟩

/-- **Passing on.** What a body does with a call whose results it returns, all of them, is to pass
its ending on. -/
theorem passes_on (hcall : q.code[pc]? = some (.call func args .open))
    (hret : q.code[pc + 1]? = some (.ret func .open)) (hindex : frame.index = pc + 1)
    {x : M Empty PUnit Unit} (hsettles : ∀ u, x m = .ok () u → u.thread.results.Settled)
    (hkeeps : ∀ s u, x m = .error (.suspend s) u → u.proto? function = some q) {side : Side}
    {fuel : Nat} (hfuel : side = .left → 0 < fuel) :
    Relayed side 0 (x m) (leaveBody function ((do
      Body.lift x
      complete q pc
      loop P function q fuel (pc + 1) : Body Empty PUnit Unit) ⟨frame, m⟩)) := by
  cases hx : x m with
  | ok u t =>
    rw [bind_of_ok (Body.lift_of_ok hx)]
    obtain ⟨r, hr, hends⟩ := relay_ok (P := P) function frame hcall hret (hsettles t hx) fuel
    rw [hr]
    rcases hends with ⟨rfl, s, rfl⟩ | ⟨s, rfl, hpassed⟩
    · cases side with
      | left => exact absurd (hfuel rfl) (Nat.lt_irrefl 0)
      | right => exact .spent fun _ => .right
    · exact .ok (hsettles t hx) hpassed
  | error e t =>
    rw [bind_of_error (Body.lift_of_error hx)]
    cases e with
    | suspend s =>
      obtain ⟨trace, hsuspend⟩ := suspendFrame_ok function frame s t
      unfold leaveBody
      dsimp only
      rw [hsuspend]
      exact .suspend ((Passed.refl t).setTrace trace)
        ⟨q, pc, func, args, hkeeps s t hx, hindex, hcall, hret⟩
    | fault | overflow | exhausted => exact .error trivial (.refl t)

end Interpreter

/-! ## Owed calls -/

/-- A tail call is taken from the channel, and its arguments are left there. -/
theorem Machine.takeTailCall_ok {F S : Type} {m : Machine F S} {target : Val} {args : List Val}
    (h : m.thread.results = .tailCall target args) :
    (onResults Results.takeTailCall : M F S (Option Val)) m =
      .ok (some target) { m with thread := { m.thread with results := .ofValues args } } := by
  obtain ⟨heap, world, ⟨results, stack, depth, boundaries, current⟩, output, trace, journal, host⟩ := m
  obtain rfl : results = .tailCall target args := h
  rfl

/-- The live slots of a window are some values. -/
structure View.Carries {F S : Type} (w : View) (m : Machine F S) (values : List Val) : Prop where
  top : w.top = values.length
  slots : ∀ i < values.length, w.slot m.thread.stack i = .value (values.getD i .nil)

/-- A window carries the values of some registers. -/
theorem View.carries_values {v w : View} {s : Stack} {cells : Array Val} {first last : Nat}
    {m : Machine Empty PUnit} (htop : w.top = last - first)
    (h : ∀ i < w.top, ∃ x, v.slot s (first + i) = .value x ∧
      w.slot m.thread.stack i = .value x) : w.Carries m (v.values s cells first last) := by
  have hlength : (v.values s cells first last).length = w.top := by simp [View.values, htop]
  refine ⟨hlength.symm, fun i hi => ?_⟩
  obtain ⟨x, hx, hw⟩ := h i (hlength ▸ hi)
  have hget : (v.values s cells first last)[i] = x := by
    simp only [View.values, List.getElem_map, List.getElem_range', Nat.one_mul, View.get, hx]
    rfl
  rw [hw, List.getD_eq_getElem?_getD, List.getElem?_eq_getElem hi, Option.getD_some, hget]

/-- Endings of a function, and of the function spelled out, that has `n` frames left. Either they
abide, or the left one asks for a tail call, and the right one has carried it out and passes its
ending on. -/
inductive Departs (side : Side) (P' : Perform Empty PUnit) (n : Nat) (ds : Depths) :
    EStateM.Result Unwind (Machine Empty PUnit) Unit →
    EStateM.Result Unwind (Machine Empty PUnit) Unit → Prop
  | abides {r r' : EStateM.Result Unwind (Machine Empty PUnit) Unit}
    (h : Abides side (Fallen ds) (fun _ _ => Kindred ds True) r r') : Departs side P' n ds r r'
  | owes {a b : Machine Empty PUnit} {target : Val} {values : List Val} {w' : View}
    {r' : EStateM.Result Unwind (Machine Empty PUnit) Unit}
    (results : a.thread.results = .tailCall target values) (h : Kindred (ds.below n) False a b)
    (carries : w'.Carries b values)
    (relayed : Relayed side n (P' (.call w' target) b) r') : Departs side P' n ds (.ok () a) r'

/-- Steps that end alike, and what follows them. -/
theorem Departs.follow {side : Side} {P' : Perform Empty PUnit} {n : Nat} {ds : Depths} {α β : Type}
    {Q : α → β → Machine Empty PUnit → Machine Empty PUnit → Prop} {x : M Empty PUnit α}
    {y : M Empty PUnit β} {f : α → M Empty PUnit Unit} {g : β → M Empty PUnit Unit}
    {a b : Machine Empty PUnit} (h : Abides side (Fallen ds) Q (x a) (y b))
    (hf : ∀ u w a b, Q u w a b → Departs side P' n ds (f u a) (g w b)) :
    Departs side P' n ds ((x >>= f) a) ((y >>= g) b) := by
  generalize hx : x a = r, hy : y b = r' at h
  cases h with
  | ok h =>
    rw [bind_of_ok hx, bind_of_ok hy]
    exact hf _ _ _ _ h
  | error h =>
    rw [bind_of_error hx, bind_of_error hy]
    exact .abides (.error h)
  | spent h =>
    subst hx hy
    exact .abides (.spent h.bind)

end ScriptCore
