import ScriptCore.Proofs.Relays

/-!
# Bodies spelled out

`Facing` activations run a body and the body spelled out on frames that agree on the registers that
are known. Operations that are not spelled out keep them facing, so they go on alike; a tail call
that is spelled out leaves the left body with a tail call that it owes (`Departs`). So a body departs
from its entry on (`enterBody_departs`) and from a suspended operation on (`reenterBody_departs`).
-/

namespace ScriptCore

open Machine

/-! ## Requests of bodies -/

/-- Requests leave the counters, the functions and the frames below their windows as they are. -/
def Restores (P : Perform Empty PUnit) : Prop :=
  ∀ (request : Request) (m u : Machine Empty PUnit), EndsIn (P request m) u →
    m.Evolves request.window.base u

/-- Two ways to carry out requests that go together. -/
structure Partners (side : Side) (ds : Depths) (P P' : Perform Empty PUnit) : Prop where
  mirrors : Mirrors side ds P P'
  left : Restores P
  right : Restores P'
  settles : ∀ {request : Request} {m t : Machine Empty PUnit} {u : Unit},
    P' request m = .ok u t → t.thread.results.Settled

/-- How much fuel bodies have on the two sides: the run that may end for want of it has less. -/
def Side.Fuels : Side → Nat → Nat → Prop
  | .left, fuel, fuel' => fuel < fuel'
  | .right, fuel, fuel' => fuel' ≤ fuel

namespace Side.Fuels

variable {side : Side} {fuel fuel' : Nat}

theorem of_zero (h : side.Fuels fuel 0) : side = .right := by
  cases side with
  | left => exact (Nat.not_lt_zero _ h).elim
  | right => rfl

theorem of_succ (h : side.Fuels fuel (fuel' + 1)) :
    side = .left ∧ fuel = 0 ∨ ∃ k, fuel = k + 1 ∧ side.Fuels k fuel' := by
  cases fuel with
  | zero =>
    cases side with
    | left => exact .inl ⟨rfl, rfl⟩
    | right => exact (Nat.not_succ_le_zero _ h).elim
  | succ k =>
    refine .inr ⟨k, rfl, ?_⟩
    cases side with
    | left => exact Nat.lt_of_succ_lt_succ h
    | right => exact Nat.le_of_succ_le_succ h

theorem pos (h : side.Fuels fuel fuel') (hside : side = .left) : 0 < fuel' := by
  subst hside
  exact Nat.zero_lt_of_lt h

/-- Only the right run may be out of fuel if the left one is not. -/
theorem right_or_pos (h : side.Fuels fuel fuel') :
    side = .right ∧ fuel' = 0 ∨ ∃ k, fuel' = k + 1 := by
  cases fuel' with
  | zero => exact .inl ⟨h.of_zero, rfl⟩
  | succ k => exact .inr ⟨k, rfl⟩

end Side.Fuels

/-- A body of a function and how it is spelled out, with the bases of their frames. -/
structure Rendering where
  function : FnId
  left : Proto
  right : Proto
  cut : Nat → Bool
  leftBase : Nat
  rightBase : Nat

namespace Rendering

variable (s : Rendering)

/-- The right body is the left one, spelled out. -/
structure Sound : Prop where
  orderly : s.left.Orderly
  byValue : s.left.ByValue
  spells : s.left.Spells s.cut s.right
  nests : Scope.spelling.Nests s.left s.right

/-- Registers that hold no captured variable. -/
def bare (r : Nat) : Prop := s.left.isReified r = false

/-- Where the two bodies are. -/
def origin (heard : Prop) (a b : Machine Empty PUnit) : Origin Empty PUnit :=
  .spelling s.cut s.bare heard a b s.leftBase s.rightBase

variable {s} {pc : Nat} {op op' : Op}

/-- An operation that is not spelled out does the same on both sides. -/
theorem Sound.corresponds (hs : s.Sound) (hop : s.left.code[pc]? = some op)
    (hcut : s.cut pc = false) (hmoved : op.Moved (spread s.cut) op')
    (happend : ∀ table base count first, op ≠ .append table base count first) (heard : Prop)
    (a b : Machine Empty PUnit) :
    Corresponds (s.origin heard a b) s.left s.right pc (spread s.cut pc) op op' where
  name := hs.spells.name
  constants := hs.spells.constants
  nests := hs.nests
  form := by
    cases hmoved with
    | jump h => exact .jump (congrArg (· + 1) h)
    | test cond when h => exact .test cond when (congrArg (· + 1) h)
    | same hjump => exact .same hjump fun _ _ _ _ h => (happend _ _ _ _ h).elim
  here := rfl
  behind _ := congrArg (· + 1) (spread_kept hcut).symm
  cells var src h := by
    subst h
    have hreified := Proto.checkOp_of_check hs.orderly.check hop
    unfold Proto.checkOp at hreified
    have hdemand := Proto.demand_ok (Proto.check_seq (Proto.check_seq hreified).2).2
    intro hbare
    rw [show s.left.isReified var.toNat = false from hbare] at hdemand
    cases hdemand

end Rendering

/-! ## Facing activations -/

/-- Two activations of a body and the body spelled out. They agree on the registers `L`, and of
these the ones that hold no captured variable hold values. -/
structure Facing (s : Rendering) (ds : Depths) (L : Nat → Prop) (f : Frame) (heard : Prop)
    (x y : Active Empty PUnit) : Prop where
  kindred : Kindred ds heard x.machine y.machine
  leftFrame : x.frame = f.placed s.leftBase
  rightFrame : y.frame = { f.placed s.rightBase with index := spreadSegment s.cut f.index }
  leftBody : x.machine.proto? s.function = some s.left
  rightBody : y.machine.proto? s.function = some s.right
  regs : ∀ r, L r → x.machine.thread.stack.slot (s.leftBase + r) =
    y.machine.thread.stack.slot (s.rightBase + r)
  bare : ∀ r, L r → s.bare r → ∃ v, x.machine.thread.stack.slot (s.leftBase + r) = .value v

/-- Two facing activations that are about to carry out the operation at `pc`. -/
structure Standing (s : Rendering) (ds : Depths) (pc : Nat) (f : Frame) (heard : Prop)
    (x y : Active Empty PUnit) : Prop
    extends Facing s ds (s.left.Known pc f.view.top) f heard x y where
  slots : f.slots = s.left.slots
  reaches : s.left.Reaches pc
  spans : ∀ r, s.left.Fresh pc f.view.top r →
    ∃ v, x.machine.thread.stack.slot (s.leftBase + r) = .value v

/-- Two bodies that have ended early by themselves. -/
def Broken (ds : Depths) (e e' : Unwind) (x y : Active Empty PUnit) : Prop :=
  e.Plain ∧ Fallen ds e e' x.machine y.machine

theorem Unwind.Restates.plain {e e' : Unwind} (h : e.Restates e') (he : e.Plain) : e'.Plain := by
  cases h with
  | suspend => exact he.elim
  | fault | append => exact trivial

theorem leaveBody_plain (function : FnId) {e : Unwind} (he : e.Plain) (x : Active Empty PUnit) :
    leaveBody function (.error e x) = .error e x.machine := by
  cases e with
  | suspend s => exact he.elim
  | fault | overflow | exhausted => rfl

/-- A request that was given up, in two bodies. -/
theorem Body.lift_spent {side : Side} {α β : Type} {x : M Empty PUnit α} {y : M Empty PUnit β}
    {u v : Active Empty PUnit} (h : side.Spent (x u.machine) (y v.machine)) :
    side.Spent (Body.lift x u) (Body.lift y v) := by
  generalize hx : x u.machine = r, hy : y v.machine = r' at h
  cases h with
  | overflow =>
    rw [Body.lift_of_error hy]
    exact .overflow
  | left =>
    rw [Body.lift_of_error hx]
    exact .left
  | right =>
    rw [Body.lift_of_error hy]
    exact .right

/-- A body that was given up stays so. -/
theorem leaveBody_spent {side : Side} (function : FnId)
    {r r' : EStateM.Result Unwind (Active Empty PUnit) Unit} (h : side.Spent r r') :
    side.Spent (leaveBody function r) (leaveBody function r') := by
  cases h with
  | overflow => exact .overflow
  | left => exact .left
  | right => exact .right

section Departs

variable {P' : Perform Empty PUnit} {n : Nat} {side : Side} {ds : Depths} {α β : Type}
variable {Q : α → β → Active Empty PUnit → Active Empty PUnit → Prop}

/-- Steps of two bodies, and what follows them. -/
theorem Departs.after {function : FnId} {u : Body Empty PUnit α} {v : Body Empty PUnit β}
    {k : α → Body Empty PUnit Unit} {l : β → Body Empty PUnit Unit} {x y : Active Empty PUnit}
    (h : Abides side (Broken ds) Q (u x) (v y))
    (hk : ∀ i j x' y', u x = .ok i x' → Q i j x' y' →
      Departs side P' n ds (leaveBody function (k i x')) (leaveBody function (l j y'))) :
    Departs side P' n ds (leaveBody function ((u >>= k) x)) (leaveBody function ((v >>= l) y)) := by
  generalize hx : u x = r, hy : v y = r' at h
  cases h with
  | ok h =>
    rw [bind_of_ok hx, bind_of_ok hy]
    exact hk _ _ _ _ hx h
  | error h =>
    obtain ⟨hplain, hfallen⟩ := h
    rw [bind_of_error hx, bind_of_error hy, leaveBody_plain _ hplain,
      leaveBody_plain _ (hfallen.restates.plain hplain)]
    exact .abides (.error hfallen)
  | spent h =>
    subst hx hy
    exact .abides (.spent (leaveBody_spent _ h.bind))

end Departs

section Facing

variable {s : Rendering} {ds : Depths} {side : Side} {L L' : Nat → Prop} {f g : Frame} {heard heard' : Prop}
variable {x y x' y' : Active Empty PUnit} {pc : Nat} {op : Op}

namespace Facing

theorem weaken (h : Facing s ds L f heard x y) (hL : ∀ r, L' r → L r) :
    Facing s ds L' f heard x y :=
  { h with
    regs := fun r hr => h.regs r (hL r hr)
    bare := fun r hr => h.bare r (hL r hr) }

theorem twin (h : Facing s ds L f heard x y) :
    Twin (s.origin heard x.machine y.machine) L f x y :=
  { h.kindred.parted with
    leftFrame := h.leftFrame
    rightFrame := h.rightFrame
    regs := h.regs
    bare := h.bare }

/-- Both activations go on. -/
theorem go (h : Facing s ds L f heard x y)
    (ht : Twin (s.origin heard x.machine y.machine) L' g x' y') : Facing s ds L' g heard x' y' where
  kindred := h.kindred.go ht.toParted
  leftFrame := ht.leftFrame
  rightFrame := ht.rightFrame
  leftBody := Keeps.proto? ht.left.functions h.leftBody
  rightBody := Keeps.proto? ht.right.functions h.rightBody
  regs := ht.regs
  bare := ht.bare

/-- Steps of the bodies that run in step. -/
theorem steps {α β : Type} {Q : α → β → Active Empty PUnit → Active Empty PUnit → Prop}
    (h : Facing s ds L f heard x y) {u : Body Empty PUnit α} {v : Body Empty PUnit β}
    (hs : Paired (Apart (s.origin heard x.machine y.machine))
      (Twin (s.origin heard x.machine y.machine) L f) u v Q) :
    Abides side (Broken ds) Q (u x) (v y) :=
  hs.abides h.twin fun f _ _ ha => ⟨trivial, .ofFault (h.kindred.go ha) f⟩

/-- After a request on windows at one offset the registers below are as they were. -/
theorem asked (h : Facing s ds L f heard x y) {offset : Nat} {a b : Machine Empty PUnit}
    (hk : Kindred ds heard' a b) (ha : x.machine.Evolves (s.leftBase + offset) a)
    (hb : y.machine.Evolves (s.rightBase + offset) b) :
    Facing s ds (fun r => L r ∧ r < offset) f heard' ⟨x.frame, a⟩ ⟨y.frame, b⟩ where
  kindred := hk
  leftFrame := h.leftFrame
  rightFrame := h.rightFrame
  leftBody := Keeps.proto? ha.functions h.leftBody
  rightBody := Keeps.proto? hb.functions h.rightBody
  regs r hr := by
    rw [ha.stack.slot _ (Nat.add_lt_add_left hr.2 _), hb.stack.slot _ (Nat.add_lt_add_left hr.2 _)]
    exact h.regs r hr.1
  bare r hr := by
    rw [ha.stack.slot _ (Nat.add_lt_add_left hr.2 _)]
    exact h.bare r hr.1

/-- The links that suspended activations leave. -/
theorem matches_link (hs : s.Sound) (hop : s.left.code[pc]? = some op) (may : op.maySuspend)
    (hreach : s.left.Reaches pc) (hslots : f.slots = s.left.slots) (hindex : f.index = pc + 1)
    (h : Facing s ds (fun r => s.left.Known pc f.view.top r ∧ r < op.windowAt s.left.slots) f heard
      x y) :
    Matches x.machine y.machine (linkOf s.function x.frame x.machine)
      (linkOf s.function y.frame y.machine) := by
  have hwindow := Proto.windowAt_le (Proto.checkOp_of_check hs.orderly.check hop)
  have hleft : ∀ r, r < op.windowAt s.left.slots →
      ((f.placed s.leftBase).view.snapshot x.machine.thread.stack f.slots).getD r .nil =
        x.machine.thread.stack.slot (s.leftBase + r) := fun r hr =>
    View.getD_snapshot _ _ (by omega)
  have hright : ∀ r, r < op.windowAt s.left.slots →
      ((f.placed s.rightBase).view.snapshot y.machine.thread.stack f.slots).getD r .nil =
        y.machine.thread.stack.slot (s.rightBase + r) := fun r hr =>
    View.getD_snapshot _ _ (by omega)
  unfold linkOf
  rw [h.leftFrame, h.rightFrame]
  dsimp only [Frame.placed]
  rw [hindex]
  refine .body h.leftBody h.rightBody hs.spells hreach hop may ⟨rfl, rfl, ?_, ?_, ?_, ?_⟩
  · exact (View.length_snapshot ..).trans hslots
  · exact (View.length_snapshot ..).trans hslots
  · intro r hknown hr
    exact (hleft r hr).trans ((h.regs r ⟨hknown, hr⟩).trans (hright r hr).symm)
  · intro r hknown hr hbare
    obtain ⟨v, hv⟩ := h.bare r ⟨hknown, hr⟩ hbare
    exact ⟨v, (hleft r hr).trans hv⟩

/-- A request of two bodies, and what follows it. -/
theorem request {P P' : Perform Empty PUnit} (hp : Partners side ds P P') (rq rq' : Request) {offset : Nat}
    (h : Facing s ds L f heard x y) (hw : rq.window.base = s.leftBase + offset)
    (hw' : rq'.window.base = s.rightBase + offset)
    (hends : Abides side (Fallen ds) (fun _ _ => Kindred ds True) (P rq x.machine) (P' rq' y.machine))
    (hlinks : ∀ x' y', Facing s ds (fun r => L r ∧ r < offset) f False x' y' →
      Matches x'.machine y'.machine (linkOf s.function x'.frame x'.machine)
        (linkOf s.function y'.frame y'.machine))
    {k l : Body Empty PUnit Unit} (hk : ∀ x' y', Facing s ds (fun r => L r ∧ r < offset) f True x' y' →
      Departs side P' 0 ds (leaveBody s.function (k x')) (leaveBody s.function (l y'))) :
    Departs side P' 0 ds (leaveBody s.function ((do Body.lift (P rq); k) x))
      (leaveBody s.function ((do Body.lift (P' rq'); l) y)) := by
  have hleft := hp.left rq x.machine
  have hright := hp.right rq' y.machine
  rw [hw] at hleft
  rw [hw'] at hright
  generalize hx : P rq x.machine = r, hy : P' rq' y.machine = r' at hends
  cases hends with
  | ok hkindred =>
    rw [bind_of_ok (Body.lift_of_ok hx), bind_of_ok (Body.lift_of_ok hy)]
    exact hk _ _ (h.asked hkindred (hleft _ (hx ▸ rfl)) (hright _ (hy ▸ rfl)))
  | error hfallen =>
    rename_i e e' a b
    rw [bind_of_error (Body.lift_of_error hx), bind_of_error (Body.lift_of_error hy)]
    have hrestates := hfallen.restates
    cases hrestates with
    | suspend values =>
      have hfacing := h.asked hfallen.toKindred (hleft a (hx ▸ ⟨trivial, rfl⟩))
        (hright b (hy ▸ ⟨trivial, rfl⟩))
      obtain ⟨t, ht⟩ := suspendFrame_ok s.function x.frame _ a
      obtain ⟨t', ht'⟩ := suspendFrame_ok s.function y.frame _ b
      unfold leaveBody
      dsimp only
      rw [ht, ht']
      refine .abides (.error ⟨hfallen.toKindred.setTrace t t', .suspend values, fun _ _ he he' => ?_⟩)
      cases he
      cases he'
      exact (Threaded.cons (hlinks _ _ hfacing) (hfallen.threads _ _ rfl rfl)).mono
        (fun _ _ => .same _) fun _ _ => .same _
    | fault | append => exact .abides (.error hfallen)
  | spent hspent =>
    subst hx hy
    exact .abides (.spent (leaveBody_spent _ (Body.lift_spent hspent).bind))

/-- Both bodies go on behind an operation. -/
theorem advance (h : Facing s ds L f heard x y) (hop : s.left.code[pc]? = some op)
    (hslots : f.slots = s.left.slots) (hreach : s.left.Reaches pc)
    (hL : ∀ r, s.left.Known pc f.view.top r → r < op.windowAt s.left.slots → L r) {next : Nat}
    (hnext : op.Next pc next)
    (hadvanced : Advanced (s.origin heard x.machine y.machine) L f op x' y') :
    ∃ g, Standing s ds next g heard x' y' := by
  obtain ⟨g, hs, -, htop, hvalues, htwin⟩ := hadvanced
  refine ⟨g, ⟨(h.go htwin).weaken fun r hr => ?_, hs.trans hslots, .step hreach hop hnext, ?_⟩⟩
  · exact (Proto.known_next hreach hop hnext htop hr).imp_left fun hr => hL r hr.1 hr.2
  · rintro r ⟨⟨q, producer, hq, hproducer, hopens, hwrites⟩, hjumps⟩
    -- a span is made by the operation before, so control has come from there
    rcases op.next_cases hnext with hbehind | hjump
    · obtain rfl : q = pc := Nat.succ.inj (hq.symm.trans hbehind)
      obtain rfl : producer = op := Option.some.inj (hproducer.symm.trans hop)
      exact hvalues hopens r hwrites
    · exact (hjumps hop hjump).elim

end Facing

end Facing

/-! ## Compiled bodies -/

/-- The registers of a span are its first one and those behind it. -/
theorem Count.covers_of_lt_last {c : Count} {base top i : Nat}
    (h : i < c.last base top - base) : c.Covers base top (base + i) := by
  cases c with
  | fixed n => exact ⟨Nat.le_add_right .., Nat.add_lt_of_lt_sub' h⟩
  | «open» =>
    have h : i < max top base - base := h
    exact ⟨Nat.le_add_right .., by omega⟩

namespace Interpreter

/-- A step of the machine, and then a body that is re-entered behind its entry. -/
theorem lift_run_of_index (fuel : Nat) (P : Perform Empty PUnit) (function : FnId) (p : Proto)
    {frame : Frame} {pc : Nat} (h : frame.index = pc + 1) (x : M Empty PUnit Unit)
    (m : Machine Empty PUnit) :
    (do Body.lift x; run fuel P function p : Body Empty PUnit Unit) ⟨frame, m⟩ = (do
      Body.lift x
      complete p pc
      loop P function p fuel (pc + 1) : Body Empty PUnit Unit) ⟨frame, m⟩ := by
  cases hx : x m with
  | ok u t =>
    rw [bind_of_ok (Body.lift_of_ok hx), bind_of_ok (Body.lift_of_ok hx)]
    exact run_of_index fuel P function p h t
  | error e t => rw [bind_of_error (Body.lift_of_error hx), bind_of_error (Body.lift_of_error hx)]

/-- The window of a call holds what is loaded there, or the registers that are handed over. -/
theorem window_plain_of_prepare {function : FnId} {proto : Proto} {pc : Nat} {op : Op} {s t : Active Empty PUnit}
    {w : View} {target : Val} (h : prepare function proto pc op s = .ok (.ask w target) t)
    (hbare : ∀ r, op.Hands s.frame.view.top r →
      ∃ v, s.machine.thread.stack.slot (s.frame.view.base + r) = .value v) :
    ∀ i < w.top, ∃ v, w.slot t.machine.thread.stack i = .value v := by
  have hask : ∀ {x : M Empty PUnit Intent} {store : Val → Body Empty PUnit Unit},
      (do
        Body.setIndex (pc + 1)
        let scratch ← Body.scratch
        let intent ← Body.lift x
        follow pc scratch store intent) s = .ok (.ask w target) t →
      ∀ i < w.top, ∃ v, w.slot t.machine.thread.stack i = .value v := by
    intro x store h
    obtain ⟨u, s₁, -, h⟩ := ok_of_bind h
    obtain ⟨scratch, s₂, -, h⟩ := ok_of_bind h
    obtain ⟨intent, s₃, -, h⟩ := ok_of_bind h
    cases intent with
    | value v =>
      obtain ⟨u, s₄, -, h⟩ := ok_of_bind h
      cases h
    | ask handler args =>
      obtain ⟨w', s₄, h₄, h⟩ := ok_of_bind h
      cases h
      cases h₄
      exact fun i hi => ⟨_, View.slot_load scratch s₃.machine.thread.stack args i hi⟩
  cases op with
  | getGlobal dst name => exact hask h
  | setGlobal name src =>
    obtain ⟨value, h⟩ := Body.getSlot_ok h
    exact hask h
  | index dst object key =>
    obtain ⟨object, h⟩ := Body.getSlot_ok h
    obtain ⟨key, h⟩ := Body.getSlot_ok h
    exact hask h
  | newIndex object key value =>
    obtain ⟨object, h⟩ := Body.getSlot_ok h
    obtain ⟨key, h⟩ := Body.getSlot_ok h
    obtain ⟨value, h⟩ := Body.getSlot_ok h
    exact hask h
  | binary op dst lhs rhs =>
    obtain ⟨lhs, h⟩ := Body.getSlot_ok h
    obtain ⟨rhs, h⟩ := Body.getSlot_ok h
    exact hask h
  | unary op dst src =>
    cases op with
    | not => exact (settled_ok h).elim
    | neg | bnot | len =>
      obtain ⟨operand, h⟩ := Body.getSlot_ok h
      exact hask h
  | call func args results =>
    have hnext : Reg.next? func = some (func.toNat + 1) := by
      obtain ⟨callee, h⟩ := Body.getSlot_ok h
      unfold Reg.next? at h ⊢
      split at h
      · exact if_pos ‹_›
      · cases h
    obtain ⟨trace, hasks⟩ := prepare_call_eq function s.frame s.machine proto pc args hnext results
    cases hasks.symm.trans h
    intro i hi
    rw [View.slot_eq, restack_stack, View.slot_growTo, Nat.add_assoc]
    exact hbare _ (Count.covers_of_lt_last hi)
  | nil | bool | const | move | varInit | varStore | getUpval | setUpval | closure | newTable
  | append | jump | test | tailCall | ret | vararg => exact (settled_ok h).elim

section Loop

variable {s : Rendering} (hs : s.Sound) {ds : Depths} {pc : Nat} {f : Frame} {heard : Prop}
variable {x y : Active Empty PUnit} {op op' : Op}

include hs

/-- An append goes on alike, or fails on both sides where it stands. -/
theorem append_abides {table base : Reg} {count : Count} {first : UInt32}
    (hop : s.left.code[pc]? = some (.append table base count first))
    (h : Standing s ds pc f heard x y) :
    Abides side (Broken ds)
      (Prepared (s.origin heard x.machine y.machine) (s.left.Known pc f.view.top) f pc
        (.append table base count first))
      (prepare s.function s.left pc (.append table base count first) x)
      (prepare s.function s.right (spread s.cut pc) (.append table base count first) y) := by
  have hknown : ∀ r, (Op.append table base count first).Reads s.left f.view.top r →
      s.left.Known pc f.view.top r := fun r => hs.orderly.known_of_reads hop
  have hsettled : ∀ (p : Proto) (pc : Nat),
      (prepare s.function p pc (.append table base count first) : Body Empty PUnit Turn) = (do
        let v ← Body.getSlot table.toNat
        appendSpan p pc base count first v
        return .goto (pc + 1)) := fun p pc => by simp [prepare, settled, execute]
  have hgoto : spread s.cut pc + 1 + 1 = spreadSegment s.cut (pc + 1 + 1) :=
    congrArg (· + 1) (spread_kept (hs.spells.kept_of_ne hop (by simp))).symm
  rw [hsettled, hsettled]
  refine (h.steps (Body.getSlot_paired (hknown _ (.inl rfl)))).bind fun v _ x' y' hv => ?_
  obtain ⟨rfl, htwin⟩ := hv
  have hkindred := h.kindred.go htwin.toParted
  cases v with
  | table t =>
    have hspan := (spanValues_paired (o := s.origin heard x.machine y.machine) (f := f)
      fun r hr => hknown r (.inr hr)).seq fun values =>
        lift_paired fun hR => setList_inStep hR t first.toNat values
    refine Paired.abides (hspan.bind fun _ _ => Paired.pure fun x y hxy => ?_) htwin
      fun f _ _ ha => ⟨trivial, .ofFault (h.kindred.go ha) f⟩
    exact ⟨hgoto, rfl, advanced_of_twin id (fun _ _ => id) hxy.2⟩
  | _ => exact .error ⟨trivial, hkindred.astray, .append hs.spells pc, by simp⟩

/-- An operation that is not spelled out is prepared alike. -/
theorem prepare_abides (hop : s.left.code[pc]? = some op) (hcut : s.cut pc = false)
    (hmoved : op.Moved (spread s.cut) op') (h : Standing s ds pc f heard x y) :
    Abides side (Broken ds)
      (Prepared (s.origin heard x.machine y.machine) (s.left.Known pc f.view.top) f pc op)
      (prepare s.function s.left pc op x) (prepare s.function s.right (spread s.cut pc) op' y) := by
  cases op with
  | append table base count first =>
    cases hmoved with
    | same => exact append_abides hs hop h
  | _ =>
    exact h.steps (prepare_paired s.function
      (hs.corresponds hop hcut hmoved nofun heard x.machine y.machine)
      fun r hr => hs.orderly.known_of_reads hop hr)

/-- What an operation hands over are values. -/
theorem hands_plain (hop : s.left.code[pc]? = some op) (h : Standing s ds pc f heard x y) {r : Nat}
    (hr : op.Hands f.view.top r) :
    ∃ v, x.machine.thread.stack.slot (s.leftBase + r) = .value v := by
  have hreads : op.Reads s.left f.view.top r := by
    cases op with
    | call | tailCall => exact .inr hr
    | _ => exact hr.elim
  cases hreified : s.left.isReified r with
  | false => exact h.bare r (hs.orderly.known_of_reads hop hreads) hreified
  | true => exact h.spans r (hs.byValue.plain hop hr hreified)

end Loop

section Bodies

variable {side : Side} {ds : Depths} {P P' : Perform Empty PUnit} (hp : Partners side ds P P')
variable {s : Rendering} (hs : s.Sound) {pc fuel fuel' : Nat} {f : Frame} {heard : Prop} {x y : Active Empty PUnit}
variable {op op' : Op} {L : Nat → Prop}

/-- Bodies that end with equal results. -/
theorem ended_departs (h : Facing s ds L f heard x y) {u v : Body Empty PUnit Unit}
    (hends : Abides side (Broken ds) (fun _ _ x' y' =>
      Twin (s.origin heard x.machine y.machine) L f x' y' ∧
        x'.machine.thread.results = y'.machine.thread.results) (u x) (v y)) :
    Departs side P' 0 ds (leaveBody s.function (u x)) (leaveBody s.function (v y)) := by
  generalize u x = r, v y = r' at hends
  cases hends with
  | ok hend => exact .abides (.ok ((h.go hend.1).kindred.hear hend.2))
  | error hend =>
    obtain ⟨hplain, hfallen⟩ := hend
    rw [leaveBody_plain _ hplain, leaveBody_plain _ (hfallen.restates.plain hplain)]
    exact .abides (.error hfallen)
  | spent h => exact .abides (.spent (leaveBody_spent _ h))

include hp hs

/-- **Tail calls spelled out.** Where a tail call is spelled out the left body owes it, and the right
one carries it out and passes its results on. -/
theorem spelled_departs (hfuel : side = .left → 0 < fuel') (hcut : s.cut pc = true)
    (h : Standing s ds pc f heard x y) :
    Departs side P' 0 ds (leaveBody s.function (loop P s.function s.left (fuel + 1) pc x))
      (leaveBody s.function (loop P' s.function s.right (fuel' + 1) (spread s.cut pc) y)) := by
  obtain ⟨func, args, hop, hcall, hret⟩ := hs.spells.spelled hcut
  have hchecked := Proto.checkOp_of_check hs.orderly.check hop
  unfold Proto.checkOp at hchecked
  have hnext := Proto.next?_of_check (Proto.check_seq hchecked).2
  obtain ⟨xf, a⟩ := x
  obtain ⟨yf, b⟩ := y
  obtain rfl : xf = f.placed s.leftBase := h.leftFrame
  obtain rfl : yf = { f.placed s.rightBase with index := spreadSegment s.cut f.index } := h.rightFrame
  -- the left body leaves the call in the channel
  let target := (f.placed s.leftBase).view.get a.thread.stack a.heap.cells func.toNat
  let values := arguments func args (f.placed s.leftBase) a
  have hleft : loop P s.function s.left (fuel + 1) pc ⟨f.placed s.leftBase, a⟩ =
      .ok () ⟨f.placed s.leftBase,
        { a with thread := { a.thread with results := .tailCall target values } }⟩ := by
    unfold loop
    rw [hop]
    exact bind_of_ok (execute_tailCall s.function (f.placed s.leftBase) a hnext)
  -- the right one makes it
  let g : Frame := { f.placed s.rightBase with index := spreadSegment s.cut f.index }
  let w : View := ⟨s.rightBase + (func.toNat + 1),
    args.last (func.toNat + 1) f.view.top - (func.toNat + 1)⟩
  obtain ⟨t, hasks⟩ := prepare_call_eq s.function g b s.right (spread s.cut pc) args hnext
    .open
  have htarget : g.view.get b.thread.stack b.heap.cells func.toNat = target := by
    have hslot := h.regs _ (hs.orderly.known_of_reads (r := func.toNat) hop (.inl rfl))
    show (b.thread.stack.slot (s.rightBase + func.toNat)).read b.heap.cells =
      (a.thread.stack.slot (s.leftBase + func.toNat)).read a.heap.cells
    rw [hslot, show a.heap.cells = b.heap.cells from h.kindred.cells]
  let b' := b.restack ((g.view.child (func.toNat + 1)).growTo b.thread.stack w.top) t
  have hright : loop P' s.function s.right (fuel' + 1) (spread s.cut pc) ⟨g, b⟩ = (do
      Body.lift (P' (.call w target))
      complete s.right (spread s.cut pc)
      loop P' s.function s.right fuel' (spread s.cut pc + 1) : Body Empty PUnit Unit)
        ⟨{ g with index := spread s.cut pc + 1 }, b'⟩ := by
    conv => lhs; unfold loop
    rw [hcall]
    dsimp only
    rw [execute_eq P' s.function hcall, bind_assoc]
    refine (bind_of_ok hasks).trans ?_
    rw [htarget]
    simp only [finish, bind_assoc, pure_bind]
    rfl
  have hcarries : w.Carries b' values := by
    refine View.carries_values rfl fun i hi => ?_
    have hcovers := Count.covers_of_lt_last hi
    obtain ⟨v, hv⟩ := hands_plain hs hop h (r := func.toNat + 1 + i) hcovers
    refine ⟨v, hv, ?_⟩
    have hslot := h.regs _ (hs.orderly.known_of_reads hop (.inr hcovers))
    rw [View.slot_eq, restack_stack, View.slot_growTo, Nat.add_assoc]
    exact hslot.symm.trans hv
  rw [hleft, hright]
  refine .owes (a := { a with thread := { a.thread with results := .tailCall target values } })
    (b := b') (show _ = Results.tailCall target values from rfl) ?_ hcarries ?_
  · exact { h.kindred with
      results := False.elim
      coroutines := fun co => (h.kindred.coroutines co).mono (fun _ _ => .same _) fun _ _ => .same _ }
  · refine passes_on s.function _ hcall hret rfl (fun u hu => hp.settles hu) (fun _ u hu => ?_) hfuel
    have hkept : b'.Evolves w.base u := hp.right (.call w target) b' u (hu ▸ ⟨trivial, rfl⟩)
    exact Keeps.proto? hkept.functions h.rightBody

omit hp in
/-- Behind a call the bodies store its outcome and go on. -/
theorem behind_departs (hop : s.left.code[pc]? = some op) (hop' : s.right.code[spread s.cut pc]? = some op')
    (hcut : s.cut pc = false) (hmoved : op.Moved (spread s.cut) op') (may : op.maySuspend)
    (hslots : f.slots = s.left.slots) (hreach : s.left.Reaches pc)
    (h : Facing s ds (fun r => s.left.Known pc f.view.top r ∧ r < op.windowAt s.left.slots) f True
      x y)
    (hloop : ∀ g x y, Standing s ds (pc + 1) g True x y →
      Departs side P' 0 ds (leaveBody s.function (loop P s.function s.left fuel (pc + 1) x))
        (leaveBody s.function (loop P' s.function s.right fuel' (spread s.cut (pc + 1)) y))) :
    Departs side P' 0 ds
      (leaveBody s.function ((do
        complete s.left pc
        loop P s.function s.left fuel (pc + 1) : Body Empty PUnit Unit) x))
      (leaveBody s.function ((do
        complete s.right (spread s.cut pc)
        loop P' s.function s.right fuel' (spread s.cut pc + 1) : Body Empty PUnit Unit) y)) := by
  have hcorresponds := hs.corresponds hop hcut hmoved
    (fun _ _ _ _ happend => by subst happend; cases may) True x.machine y.machine
  refine .after (h.steps (complete_paired trivial hcorresponds hop hop'
    fun hnot => (hnot may).elim)) fun _ _ x' y' _ hadvanced => ?_
  obtain ⟨g, hg⟩ := h.advance hop hslots hreach (fun r hknown hr => ⟨hknown, hr⟩)
    (Op.next_of_maySuspend may pc) hadvanced
  rw [← spread_kept hcut]
  exact hloop g x' y' hg

/-- A loop of a body and of the body spelled out. -/
theorem loop_departs (hfuel : side.Fuels fuel fuel') (h : Standing s ds pc f heard x y) :
    Departs side P' 0 ds (leaveBody s.function (loop P s.function s.left fuel pc x))
      (leaveBody s.function (loop P' s.function s.right fuel' (spread s.cut pc) y)) := by
  induction fuel' generalizing fuel heard pc f x y with
  | zero =>
    obtain rfl := hfuel.of_zero
    exact .abides (.spent .right)
  | succ fuel' ih =>
    rcases hfuel.of_succ with ⟨rfl, rfl⟩ | ⟨fuel, rfl, hle⟩
    · exact .abides (.spent .left)
    cases hop : s.left.code[pc]? with
    | none =>
      unfold loop
      rw [hop, hs.spells.ends hop]
      exact ended_departs h.toFacing ((h.steps (setChannel_paired (.ofValues []))).mono
        (fun _ _ _ _ h => h) fun _ _ _ _ hend => ⟨hend.1, hend.2.1.trans hend.2.2.symm⟩)
    | some op =>
      cases hcut : s.cut pc with
      | true => exact spelled_departs hp hs hle.pos hcut h
      | false =>
        obtain ⟨op', hop', hmoved⟩ := hs.spells.kept hop hcut
        unfold loop
        rw [hop, hop']
        dsimp only
        rw [execute_eq _ _ hop, execute_eq _ _ hop', bind_assoc, bind_assoc]
        refine .after (prepare_abides hs hop hcut hmoved h) fun turn turn' x' y' hx hturn => ?_
        cases turn <;> cases turn'
        case goto.goto next next' =>
          obtain ⟨hsame, hnext, hadvanced⟩ := hturn
          obtain rfl : next' = spread s.cut next := Nat.succ.inj hsame
          obtain ⟨g, hg⟩ := h.advance hop h.slots h.reaches (fun _ hr _ => hr) hnext hadvanced
          exact ih hle hg
        case done.done =>
          obtain ⟨htwin, hresults, -⟩ := hturn
          exact .abides (.ok ((h.go htwin).kindred.hear hresults))
        case ask.ask w target w' target' =>
          obtain ⟨rfl, hmay, htwin, n, hoffset⟩ := hturn
          have hfacing := h.go htwin
          have hplain := window_plain_of_prepare hx fun r hr => by
            rw [h.leftFrame] at hr ⊢
            exact hands_plain hs hop h hr
          have hserving : Serving ds heard w w' x'.machine y'.machine :=
            { hfacing.kindred with
              top := by rw [hoffset.left, hoffset.right]
              slots := fun i hi => hoffset.slots i (by rw [hoffset.left] at hi; exact hi)
              plain := hplain }
          simp only [finish, bind_assoc, pure_bind]
          rw [h.slots] at hoffset
          refine hfacing.request hp (.call w target) (.call w' target)
            (congrArg View.base hoffset.left) (congrArg View.base hoffset.right)
            (hp.mirrors.call target hserving) (fun x y hxy => ?_) fun x y hxy => ?_
          · exact hxy.matches_link (f := { f with index := pc + 1 }) hs hop hmay h.reaches h.slots rfl
          · exact behind_departs (f := { f with index := pc + 1 }) hs hop hop' hcut hmoved hmay h.slots
              h.reaches hxy fun g x y hg => ih hle hg
        all_goals exact hturn.elim

end Bodies

end Interpreter

/-! ## Entering and re-entering -/

theorem Proto.Spells.reifyParams_eq {p q : Proto} {cut : Nat → Bool} (h : p.Spells cut q)
    (slot n : Nat) : (Interpreter.reifyParams q slot n : Body Empty PUnit Unit) =
      Interpreter.reifyParams p slot n := by
  induction n generalizing slot with
  | zero => rfl
  | succ n ih =>
    unfold Interpreter.reifyParams
    rw [ih, h.isReified]

section Entries

open Interpreter

variable {side : Side} {ds : Depths} {P P' : Perform Empty PUnit} (hp : Partners side ds P P')
variable {s : Rendering} (hs : s.Sound) {fuel fuel' : Nat} {heard : Prop} {a b : Machine Empty PUnit}

include hp hs

/-- A body is entered with the arguments of the body spelled out. -/
theorem enterBody_departs {n : Nat} (hfuel : side.Fuels fuel fuel')
    (h : Serving ds heard ⟨s.leftBase, n⟩ ⟨s.rightBase, n⟩ a b)
    (hleft : a.proto? s.function = some s.left) (hright : b.proto? s.function = some s.right) :
    Departs side P' 0 ds
      (enterBody s.function s.left.layout (run fuel P s.function s.left) ⟨s.leftBase, n⟩ a)
      (enterBody s.function s.right.layout (run fuel' P' s.function s.right) ⟨s.rightBase, n⟩ b) := by
  rw [← hs.spells.alike.layout]
  have hopens := openFrame_paired (o := s.origin heard a b) (n := n) s.left.layout rfl
    fun _ _ => trivial
  refine .follow (hopens.abides (Kindred.windows h) fun f _ _ hp =>
    .ofFault (h.toKindred.go hp) f) fun _ _ a' b' hopened => ?_
  obtain ⟨f, hindex, hslots, rfl, rfl, htwin⟩ := hopened
  rw [Proto.layout_slots hs.orderly.check] at hslots htwin
  have hfacing : Facing s ds (· < s.left.slots) f heard ⟨(s.origin heard a b).leftFrame f, a'⟩
      ⟨(s.origin heard a b).rightFrame f, b'⟩ :=
    { kindred := h.toKindred.go htwin.toParted
      leftFrame := rfl
      rightFrame := rfl
      leftBody := Keeps.proto? htwin.left.functions hleft
      rightBody := Keeps.proto? htwin.right.functions hright
      regs := htwin.regs
      bare := htwin.bare }
  have hentry : ((s.origin heard a b).leftFrame f).index = 0 := hindex
  have hentry' : ((s.origin heard a b).rightFrame f).index = 0 := congrArg (spreadSegment s.cut) hindex
  rw [runBody_eq, runBody_eq, run_of_entry fuel P s.function s.left hentry,
    run_of_entry fuel' P' s.function s.right hentry', ← hs.spells.params, hs.spells.reifyParams_eq]
  refine .after (hfacing.steps (reifyParams_paired s.left 0 s.left.params (fun i _ hi => ?_)
    fun i hi hbare => ?_)) fun _ _ x y _ hreified => ?_
  · have hparams := Proto.params_le_of_check hs.orderly.check
    show i < s.left.slots
    omega
  · rw [show s.left.isReified i = false from hbare] at hi
    cases hi
  · refine loop_departs hp hs hfuel ⟨(hfacing.go hreified.2).weaken fun r hr => hr.lt_of_entry,
      hslots, .entry, fun r hr => ?_⟩
    obtain ⟨⟨_, _, hentry, _⟩, _⟩ := hr
    cases hentry

/-- A body is re-entered like the body spelled out, at one operation with frames that resemble each
other. -/
theorem reenterBody_departs {n n' pc : Nat} {op : Op} (hfuel : side.Fuels fuel fuel')
    (h : Kindred ds heard a b) (hleft : a.proto? s.function = some s.left)
    (hright : b.proto? s.function = some s.right)
    (hreach : s.left.Reaches pc) (hop : s.left.code[pc]? = some op) (may : op.maySuspend)
    {saved saved' : Saved} (hsaved : saved.Resembles s.left pc op saved') {inner inner' : List Link}
    (hinner : Threaded a b inner inner') (values : List Val) :
    Departs side P' 0 ds
      (reenterBody P s.function s.left.name s.left.layout (run fuel P s.function s.left)
        ⟨s.leftBase, n⟩ (pc + 1) saved inner values a)
      (reenterBody P' s.function s.right.name s.right.layout (run fuel' P' s.function s.right)
        ⟨s.rightBase, n'⟩ (spread s.cut pc + 1) saved' inner' values b) := by
  rw [reenterBody_eq _ _ _ _ _ _ (Nat.succ_ne_zero _),
    reenterBody_eq _ _ _ _ _ _ (Nat.succ_ne_zero _), ← hs.spells.alike.layout]
  obtain ⟨t, u, ht, hkept, hrun⟩ := reopen_ok (α := Unit) s.left.layout ⟨s.leftBase, n⟩ (pc + 1) saved a
  obtain ⟨t', u', ht', hkept', hrun'⟩ := reopen_ok (α := Unit) s.left.layout ⟨s.rightBase, n'⟩
    (spread s.cut pc + 1) saved' b
  rw [hrun, hrun', continueBody_eq, continueBody_eq]
  have hlayout := Proto.layout_slots hs.orderly.check
  have hwindow := Proto.windowAt_le (Proto.checkOp_of_check hs.orderly.check hop)
  let f : Frame := ⟨⟨0, saved.top⟩, pc + 1, s.left.layout.slots, saved.varargs⟩
  have hparted : Parted (s.origin heard a b) (a.restack t u) (b.restack t' u') :=
    h.parted.restack hkept hkept' (fun _ => False.elim) u u'
  -- The slots from the window of the call on have been the callee's, and are not compared.
  have hregs : ∀ r, r < op.windowAt s.left.slots →
      t.slot (s.leftBase + r) = saved.slots.getD r .nil ∧
      t'.slot (s.rightBase + r) = saved'.slots.getD r .nil := fun r hr => by
    rw [ht, ht', View.slot_restore, View.slot_restore, hsaved.left, hsaved.right,
      if_pos (by dsimp only; omega), if_pos (by dsimp only; omega), Nat.add_sub_cancel_left,
      Nat.add_sub_cancel_left]
    exact ⟨rfl, rfl⟩
  have hfacing : Facing s ds
      (fun r => s.left.Known pc f.view.top r ∧ r < op.windowAt s.left.slots) f heard
      ⟨f.placed s.leftBase, a.restack t u⟩
      ⟨⟨⟨s.rightBase, saved'.top⟩, spread s.cut pc + 1, s.left.layout.slots, saved'.varargs⟩,
        b.restack t' u'⟩ :=
    { kindred := h.go hparted
      leftFrame := rfl
      rightFrame := by rw [← hsaved.top, ← hsaved.varargs]; rfl
      leftBody := hleft
      rightBody := hright
      regs := fun r hr => by
        rw [restack_stack, restack_stack, (hregs r hr.2).1, (hregs r hr.2).2]
        exact hsaved.regs r hr.1 hr.2
      bare := fun r hr hbare => by
        rw [restack_stack, (hregs r hr.2).1]
        exact hsaved.bare r hr.1 hr.2 hbare }
  refine hfacing.request hp (.replay inner values ⟨s.leftBase + s.left.layout.slots, 0⟩)
    (.replay inner' values ⟨s.rightBase + s.left.layout.slots, 0⟩) rfl rfl
    (hp.mirrors.replay values _ _ hfacing.kindred
      (hinner.mono (fun _ _ => .same _) fun _ _ => .same _)) (fun x y hxy => ?_) fun x y hxy => ?_
  · exact (hxy.weaken fun r hr => ⟨hr, by omega⟩).matches_link hs hop may hreach hlayout rfl
  · obtain ⟨xf, xm⟩ := x
    obtain ⟨yf, ym⟩ := y
    obtain rfl := hxy.leftFrame
    obtain rfl := hxy.rightFrame
    have hcut := hs.spells.kept_of_ne hop fun _ _ htail => by subst htail; cases may
    obtain ⟨op', hop', hmoved⟩ := hs.spells.kept hop hcut
    rw [run_of_index fuel P s.function s.left rfl, run_of_index fuel' P' s.function s.right rfl]
    exact behind_departs hs hop hop' hcut hmoved may hlayout hreach
      (hxy.weaken fun r hr => ⟨hr, by omega⟩) fun g x y hg => loop_departs hp hs hfuel hg

omit hp hs in
/-- A link that passes the results on is re-entered: what is pending below it is carried out, and its
ending is passed on. -/
theorem reenter_relayed {link : Link} (hfuel : side = .left → 0 < fuel) (hright : Restores P')
    (hsettles : ∀ {request : Request} {m t : Machine Empty PUnit} {u : Unit},
      P' request m = .ok u t → t.thread.results.Settled)
    (h : b.Relays link) (inner : List Link) (values : List Val) (w : View) : ∃ t u scratch,
      Relayed side 0 (P' (.replay inner values scratch) (b.restack t u))
        (reenterFunction fuel P' link inner values w b) := by
  obtain ⟨q, pc, func, args, hq, hindex, hcall, hret⟩ := h
  obtain ⟨f, _, saved⟩ := link
  obtain rfl : _ = pc + 1 := hindex
  obtain ⟨cells, hclosure⟩ := closure_of_proto? hq
  obtain ⟨t, u, -, -, hrun⟩ := reopen_ok (α := Unit) q.layout w (pc + 1) saved b
  refine ⟨t, u, ⟨w.base + q.layout.slots, 0⟩, ?_⟩
  rw [reenterFunction_body (by rw [hclosure]; rfl), reenterBody_eq _ _ _ _ _ _ (Nat.succ_ne_zero pc),
    hrun, continueBody_eq]
  rw [lift_run_of_index fuel P' f q rfl]
  refine passes_on f _ hcall hret rfl (fun u hu => hsettles hu) (fun _ v hv => ?_) hfuel
  have hkept : (b.restack t u).Evolves (w.base + q.layout.slots) v :=
    hright (.replay inner values ⟨w.base + q.layout.slots, 0⟩) (b.restack t u) v (by
      rw [hv]
      exact ⟨trivial, rfl⟩)
  exact Keeps.proto? hkept.functions hq

end Entries

end ScriptCore
