import ScriptCore.Proofs.Aligned
import ScriptCore.Proofs.PausedFunctions

/-!
# Aligned bodies

Two activations of one body are `Level` if their machines are aligned and share the registers of
a set, and their frames differ in their bases only. A prompt body reads no register that its
frame has not cleared or written, so it runs alike on level activations (`run_level`), and if it is
suspended it leaves the same link on both sides (`leaveBody_concur`). What it asks for in between is
served alike (`Served`); that is what the induction over the nesting of calls gives.
-/

namespace ScriptCore

open Machine

/-! ## Requests -/

/-- Requests that hand over the same. -/
inductive Overlap.Asks (v : Overlap) (m : Machine Empty PUnit) : Request → Request → Prop
  /-- Calls of one value with shared live slots. -/
  | call {d n : Nat} {w w' : View} (hw : v.Hands d n w w') (target : Val) :
    Asks v m (.call w target) (.call w' target)
  /-- Replays of one chain with the same values. -/
  | replay {d : Nat} {w w' : View} (hw : v.Based d w w') {links : List Link}
    (hfits : ∀ link ∈ links, m.Fits link) (values : List Val) :
    Asks v m (.replay links values w) (.replay links values w')

/-- Requests that hand over the same to aligned machines concur. -/
def Served (P : Perform Empty PUnit) : Prop :=
  ∀ {v : Overlap} {heard : Prop} {a b : Machine Empty PUnit} {request request' : Request},
    Aligned v heard a b → v.Asks a request request' →
    Concur (Astray v) (fun _ _ => Aligned v True) (P request a) (P request' b)

/-! ## Level activations -/

/-- Two activations with the frame `f` at offset `d` whose machines also share the registers
`L`. -/
structure Level (v : Overlap) (d : Nat) (L : Nat → Prop) (f : Frame) (heard : Prop)
    (x y : Active Empty PUnit) : Prop where
  aligned : Aligned (v.adding d L) heard x.machine y.machine
  left : x.frame = f.placed (v.left + d)
  right : y.frame = f.placed (v.right + d)

/-- Two bodies that have ended early. If they are suspended, their frames are level. -/
def Halted (v : Overlap) (d slots : Nat) : Unwind → Active Empty PUnit → Active Empty PUnit → Prop
  | .suspend _, x, y => ∃ g : Frame, g.slots = slots ∧ Level v d (· < slots) g False x y
  | _, x, y => Aligned v False x.machine y.machine

section Level

variable {v : Overlap} {d slots : Nat} {L L' : Nat → Prop} {f g : Frame} {heard heard' : Prop}
variable {x y x' y' : Active Empty PUnit} {α β γ δ : Type}
variable {Q : α → β → Active Empty PUnit → Active Empty PUnit → Prop}
variable {W : γ → δ → Active Empty PUnit → Active Empty PUnit → Prop}

theorem Halted.of_plain {e : Unwind} (he : e.Plain)
    (h : Aligned v False x.machine y.machine) : Halted v d slots e x y := by
  cases e with
  | suspend s => exact he.elim
  | fault | overflow | exhausted => exact h

namespace Level

theorem weaken (h : Level v d L f heard x y) (hL : ∀ r, L' r → L r) : Level v d L' f heard x y where
  aligned := h.aligned.without.adding fun _ hr => h.aligned.added (hL _ hr)
  left := h.left
  right := h.right

/-- The two activations as they stand. -/
theorem twin (h : Level v d L f heard x y) :
    Twin (v.origin d heard x.machine y.machine) L f x y :=
  { h.aligned.without.parted d with
    leftFrame := h.left
    rightFrame := h.right
    regs := fun _ => h.aligned.added
    bare := fun _ _ => False.elim }

/-- Every operation of a valid body corresponds to itself. -/
theorem corresponds {p : Proto} (hp : p.Valid) (heard : Prop) (a b : Machine Empty PUnit) (pc : Nat)
    (op : Op) : Corresponds (v.origin d heard a b) p p pc pc op op :=
  .refl ⟨fun _ => rfl, fun _ => id⟩ hp.nests pc op

/-- Both activations go on. -/
theorem go (h : Level v d L f heard x y)
    (ht : Twin (v.origin d heard x.machine y.machine) L' g x' y') : Level v d L' g heard x' y' where
  aligned := (h.aligned.without.go ht.toParted).adding ht.regs
  left := ht.leftFrame
  right := ht.rightFrame

/-- Both activations have left their body. -/
theorem apart (h : Level v d L f heard x y)
    (ha : Apart (v.origin d heard x.machine y.machine) x' y') :
    Aligned v heard x'.machine y'.machine := h.aligned.without.go ha

/-- Steps that run in step, and what follows them. -/
theorem after (h : Level v d L f heard x y) {s : Body Empty PUnit α} {t : Body Empty PUnit β}
    {k : α → Body Empty PUnit γ} {l : β → Body Empty PUnit δ}
    (hs : Paired (Apart (v.origin d heard x.machine y.machine))
      (Twin (v.origin d heard x.machine y.machine) L f) s t Q)
    (hk : ∀ u w x y, Q u w x y → Concur (Halted v d slots) W (k u x) (l w y)) :
    Concur (Halted v d slots) W ((s >>= k) x) ((t >>= l) y) :=
  (hs.concur h.twin fun _ _ _ he ha => .of_plain he (h.apart ha).astray).bind hk

/-- A request that a body makes. -/
theorem request {P : Perform Empty PUnit} (hserved : Served P) {r r' : Request}
    (h : Level v d L f heard x y) (hslots : f.slots = slots) (hframe : ∀ i < slots, L i)
    (hasks : (v.adding d L).Asks x.machine r r') :
    Concur (Halted v d slots) (fun _ _ => Level v d L f True) (Body.lift (P r) x)
      (Body.lift (P r') y) := by
  obtain ⟨_, a⟩ := x
  obtain ⟨_, b⟩ := y
  obtain ⟨haligned, hleft, hright⟩ := h
  have hends := hserved haligned hasks
  unfold Body.lift
  dsimp only at hends hleft hright ⊢
  cases hx : P r a with
  | ok u a' =>
    cases hy : P r' b with
    | ok u' b' =>
      rw [hx, hy] at hends
      exact ⟨hends, hleft, hright⟩
    | error e b' => rw [hx, hy] at hends; exact hends.elim
  | error e a' =>
    cases hy : P r' b with
    | ok u' b' => rw [hx, hy] at hends; exact hends.elim
    | error e' b' =>
      rw [hx, hy] at hends
      obtain ⟨rfl, hastray⟩ := hends
      refine ⟨rfl, ?_⟩
      cases e with
      | suspend s =>
        exact ⟨f, hslots, weaken ⟨hastray, hleft, hright⟩ hframe⟩
      | fault | overflow | exhausted => exact hastray.without

end Level

end Level

/-! ## Compiled bodies -/

namespace Interpreter

variable {P : Perform Empty PUnit} (hserved : Served P) (function : FnId) {p : Proto}
variable (hp : p.Valid) {v : Overlap} {d : Nat} {heard : Prop} {f : Frame}
variable {x y : Active Empty PUnit}

include hserved hp

/-- A loop of a prompt body, from where it holds its frame and an open span on. -/
theorem loop_level (fuel : Nat) {pc : Nat} (hslots : f.slots = p.slots)
    (h : Level v d (p.Held pc f.view.top) f heard x y) :
    Concur (Halted v d p.slots) (fun _ _ x y => Aligned v True x.machine y.machine)
      (loop P function p fuel pc x) (loop P function p fuel pc y) := by
  -- The frames share the registers that are held at `pc`, and no others: a callee may have left
  -- anything in the rest.
  induction fuel generalizing heard pc f x y with
  | zero => exact ⟨rfl, h.aligned.without.astray⟩
  | succ fuel ih =>
    unfold loop
    cases hop : p.code[pc]? with
    | none =>
      have hgives := setChannel_paired (o := v.origin d heard x.machine y.machine)
        (K := p.Held pc f.view.top) (f := f) (.ofValues [])
      refine (hgives.concur h.twin fun _ _ _ he ha => .of_plain he (h.apart ha).astray).mono
        (fun _ _ _ h => h) fun _ _ _ _ hend => ?_
      exact (h.apart hend.1.toParted).hear (hend.2.1.trans hend.2.2.symm)
    | some op =>
      dsimp only
      rw [execute_eq _ _ hop, bind_assoc]
      refine h.after (prepare_paired function (Level.corresponds hp _ _ _ pc op)
        fun r hr => hp.prompt.held_of_reads hp.check hop hr) fun turn turn' x' y' hturn => ?_
      cases turn <;> cases turn'
      case goto.goto next next' =>
        obtain ⟨hsame, hnext, g, hs, -, -, -, hg⟩ := hturn
        obtain rfl : next' = next := Nat.succ.inj hsame
        refine ih (hs.trans hslots) ((h.go hg).weaken fun r hr => ?_)
        exact (Proto.held_next hop hnext hr).imp_left .inl
      case done.done =>
        obtain ⟨htwin, hresults, -⟩ := hturn
        exact (h.apart htwin.toParted).hear hresults
      case ask.ask w target w' target' =>
        obtain ⟨rfl, hmay, ht, n, hw⟩ := hturn
        simp only [finish, bind_assoc, pure_bind]
        -- the registers in the window are live, so they are shared while the call runs
        have hlevel := h.go ht
        let L := fun r => p.Held pc f.view.top r ∨
          ∃ i < n, r = op.windowAt f.slots + i
        have hwider : Level v d L { f with index := pc + 1 } heard x' y' := by
          refine ⟨hlevel.aligned.without.adding fun r hr => ?_, hlevel.left, hlevel.right⟩
          rcases hr with hr | ⟨i, hi, rfl⟩
          · exact hlevel.aligned.added hr
          · have hslot := hw.slots i hi
            rw [hw.left, hw.right] at hslot
            rw [← Nat.add_assoc, ← Nat.add_assoc]
            exact hslot
        have hwindows : (v.adding d L).Hands (d + op.windowAt f.slots) n w w' :=
          ⟨hw.left.trans (congrArg (View.mk · n) (Nat.add_assoc ..)),
            hw.right.trans (congrArg (View.mk · n) (Nat.add_assoc ..)),
            fun i hi => .inr ⟨_, .inr ⟨i, hi, rfl⟩, Nat.add_assoc ..⟩⟩
        have hcall := hwider.request hserved hslots (fun i hi => .inl (.inl hi))
          (.call hwindows target)
        refine hcall.bind fun _ _ x y hafter => hafter.after
          (complete_paired trivial (Level.corresponds hp _ _ _ pc op) hop hop fun _ => ⟨rfl, rfl⟩)
          fun _ _ x' y' hcomplete => ?_
        obtain ⟨g, hs, -, -, -, hg⟩ := hcomplete
        refine ih (hs.trans hslots) ((hafter.go hg).weaken fun r hr => ?_)
        exact (Proto.held_succ hop hr).imp_left fun hr => .inl (.inl hr)
      all_goals exact hturn.elim

/-- **Bodies on level frames.** A valid body runs alike on frames that share their slots, from its
entry on or from the outcome of a suspended operation on. -/
theorem run_level (fuel : Nat) (hslots : f.slots = p.slots) (hheard : f.index ≠ 0 → heard)
    (h : Level v d (· < p.slots) f heard x y) :
    Concur (Halted v d p.slots) (fun _ _ x y => Aligned v True x.machine y.machine)
      (run fuel P function p x) (run fuel P function p y) := by
  cases hindex : f.index with
  | zero =>
    rw [run_of_entry fuel P function p (by rw [h.left]; exact hindex),
      run_of_entry fuel P function p (by rw [h.right]; exact hindex)]
    refine h.after (reifyParams_paired p 0 p.params (fun i _ hi => ?_) fun _ _ => id)
      fun _ _ x y hreified => ?_
    · have hparams := Proto.params_le_of_check hp.check
      show i < p.slots
      omega
    · exact loop_level hserved function hp fuel hslots
        ((h.go hreified.2).weaken fun r hr => hr.lt_of_entry)
  | succ pc =>
    rw [run_of_index fuel P function p (by rw [h.left]; exact hindex),
      run_of_index fuel P function p (by rw [h.right]; exact hindex)]
    cases hop : p.code[pc]? with
    | none =>
      have hviolation : complete p pc = (Body.lift (violate (.pastCode p.name pc)) :
          Body Empty PUnit Unit) := by simp [complete, hop]
      rw [hviolation]
      exact ⟨rfl, h.aligned.without.astray⟩
    | some op =>
      have hresumed : heard := hheard (hindex ▸ Nat.succ_ne_zero pc)
      refine h.after (complete_paired hresumed (Level.corresponds hp _ _ _ pc op) hop hop
        fun _ => ⟨rfl, rfl⟩) fun _ _ x y hcomplete => ?_
      obtain ⟨g, hs, -, -, -, hg⟩ := hcomplete
      exact loop_level hserved function hp fuel (hs.trans hslots)
        ((h.go hg).weaken fun r hr => Proto.held_succ hop hr)

end Interpreter

/-! ## Entering and leaving -/

section Functions

variable {v : Overlap} {d n slots : Nat} {heard : Prop} {a b : Machine Empty PUnit} {w w' : View}
variable {function : FnId}

/-- Bodies with level frames leave one link. -/
theorem leaveBody_concur {r r' : EStateM.Result Unwind (Active Empty PUnit) Unit}
    (h : Concur (Halted v d slots) (fun _ _ x y => Aligned v True x.machine y.machine) r r') :
    Concur (Astray v) (fun _ _ => Aligned v True) (leaveBody function r) (leaveBody function r') := by
  cases r <;> cases r'
  case ok.ok => exact h
  case ok.error => exact h.elim
  case error.ok => exact h.elim
  case error.error e x e' y =>
    obtain ⟨rfl, hhalted⟩ := h
    cases e with
    | suspend s =>
      obtain ⟨g, rfl, hlevel⟩ := hhalted
      have hlink : linkOf function x.frame x.machine = linkOf function y.frame y.machine := by
        have hsnapshot : (g.placed (v.left + d)).view.snapshot x.machine.thread.stack g.slots =
            (g.placed (v.right + d)).view.snapshot y.machine.thread.stack g.slots :=
          View.snapshot_congr _ _ fun i hi => hlevel.aligned.added hi
        unfold linkOf
        rw [hlevel.left, hlevel.right]
        exact congrArg (fun slots => Link.mk function g.index ⟨slots, g.view.top, g.varargs⟩) hsnapshot
      obtain ⟨t, ht⟩ := suspendFrame_ok function x.frame s x.machine
      obtain ⟨t', ht'⟩ := suspendFrame_ok function y.frame s y.machine
      unfold leaveBody
      dsimp only
      rw [ht, ht', hlink]
      exact ⟨rfl, hlevel.aligned.without.setTrace t t'⟩
    | fault | overflow | exhausted => exact ⟨rfl, hhalted⟩

variable {P : Perform Empty PUnit} (hserved : Served P) {p : Proto} (hp : p.Valid)

include hserved hp

/-- A valid body is entered alike on shared arguments. -/
theorem enterBody_concur (h : Aligned v heard a b) (hw : v.Hands d n w w') (fuel : Nat) :
    Concur (Astray v) (fun _ _ => Aligned v True)
      (enterBody function p.layout (Interpreter.run fuel P function p) w a)
      (enterBody function p.layout (Interpreter.run fuel P function p) w' b) := by
  obtain ⟨rfl, rfl, hlive⟩ := hw
  refine h.afterWindows (h.windows hlive) (openFrame_paired (o := v.origin d heard a b) p.layout
    rfl fun _ => False.elim) fun _ _ a' b' hopened => ?_
  obtain ⟨g, hindex, hslots, rfl, rfl, htwin⟩ := hopened
  rw [Proto.layout_slots hp.check] at hslots htwin
  have hlevel : Level v d (· < p.slots) g heard ⟨g.placed (v.left + d), a'⟩
      ⟨g.placed (v.right + d), b'⟩ :=
    ⟨(h.go htwin.toParted).adding htwin.regs, rfl, rfl⟩
  rw [runBody_eq, runBody_eq]
  exact leaveBody_concur (Interpreter.run_level hserved function hp fuel hslots
    (fun hne => (hne hindex).elim) hlevel)

/-- A valid body is re-entered alike with one saved frame. -/
theorem reenterBody_concur (h : Aligned v heard a b) (hw : v.Based d w w') (fuel : Nat)
    {index : Nat} (hindex : index ≠ 0) {saved : Saved}
    (hsaved : saved.slots.length = p.layout.slots) {inner : List Link}
    (hinner : ∀ link ∈ inner, a.Fits link) (values : List Val) :
    Concur (Astray v) (fun _ _ => Aligned v True)
      (reenterBody P function p.name p.layout (Interpreter.run fuel P function p) w index saved
        inner values a)
      (reenterBody P function p.name p.layout (Interpreter.run fuel P function p) w' index saved
        inner values b) := by
  obtain ⟨base, m⟩ := w
  obtain ⟨base', m'⟩ := w'
  obtain ⟨rfl, rfl⟩ := hw
  rw [reenterBody_eq _ _ _ _ _ _ hindex, reenterBody_eq _ _ _ _ _ _ hindex]
  obtain ⟨s, t, hs, hkept, hrun⟩ := reopen_ok (α := Unit) p.layout ⟨v.left + d, m⟩ index saved a
  obtain ⟨s', t', hs', hkept', hrun'⟩ := reopen_ok (α := Unit) p.layout ⟨v.right + d, m'⟩ index
    saved b
  rw [hrun, hrun', continueBody_eq, continueBody_eq]
  have hslots := Proto.layout_slots hp.check
  let g : Frame := ⟨⟨0, saved.top⟩, index, p.layout.slots, saved.varargs⟩
  have hparted : Parted (v.origin d heard a b) (a.restack s t) (b.restack s' t') := by
    refine (h.parted d).restack hkept hkept' (fun i hi => ?_) t t'
    rw [hs, hs']
    exact View.even_restore m m' 0 saved.slots i ((h.parted d).shared i hi)
  have hlevel : Level v d (· < p.slots) g heard ⟨g.placed (v.left + d), a.restack s t⟩
      ⟨g.placed (v.right + d), b.restack s' t'⟩ := by
    refine ⟨(h.go hparted).adding fun r hr => ?_, rfl, rfl⟩
    rw [restack_stack, restack_stack, hs, hs', View.slot_restore, View.slot_restore,
      if_pos (by dsimp only; omega), if_pos (by dsimp only; omega), Nat.add_sub_cancel_left,
      Nat.add_sub_cancel_left]
  have hwindows : (v.adding d (· < p.slots)).Based (d + p.layout.slots)
      ⟨v.left + d + p.layout.slots, 0⟩ ⟨v.right + d + p.layout.slots, 0⟩ :=
    ⟨Nat.add_assoc .., Nat.add_assoc ..⟩
  have hfits : ∀ link ∈ inner, (a.restack s t).Fits link := hinner
  have hreplay := hlevel.request hserved hslots (fun _ hi => hi)
    (.replay hwindows hfits values)
  exact leaveBody_concur (hreplay.bind fun _ _ x y hafter =>
    Interpreter.run_level hserved function hp fuel hslots (fun _ => trivial) hafter)

end Functions

end ScriptCore
