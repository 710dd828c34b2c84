import ScriptCore.Proofs.Dialogue

/-!
# Bodies with pauses

A body that is suspended in a call leaves its frame, and is resumed with the same slots at another
place of the stack. `bodies` is the setting for the left one of two such activations. A call that
is suspended and resumed in a body leads to the same continuation as one that is not
(`onward_frames`), so a tidy body follows itself (`run_follows`), and so do the hand-written ones.
-/

namespace ScriptCore

open Machine

variable {D : Partner} {n : Nat}

/-! ## Stages -/

/-- Where the left body was last entered: its activation there, and what was asked. -/
structure Stage where
  active : Active Answer Dialogue
  asked : List (List Val)

namespace Stage

/-- The place of the machine under a body. -/
def place (st : Stage) : Place := ⟨st.active.frame.view, st.active.machine, st.asked⟩

/-- Where the frame lies. -/
def base (st : Stage) : Nat := st.active.frame.view.base

end Stage

/-- The empty window above the slots of a frame. -/
def Frame.above (f : Frame) : View := ⟨f.view.base + f.slots, 0⟩

/-- The setting for a body that is re-entered with fuel `n`: what is pending in it is replayed
above its frame, and then it goes on. -/
def bodies (D : Partner) (n : Nat) (body : Body Answer Dialogue Unit)
    (y : Machine Answer Dialogue) (base : Nat) :
    Setting Stage (Active Answer Dialogue) (Active Answer Dialogue) Unit Unit where
  ok st _ _ a b := Beside D y base st.place a.machine b.machine
  error st a b := Beside D y base st.place a.machine b.machine
  left st _ a := Paused st.place a.machine ∧ a.frame.index ≠ 0 ∧
    a.frame.slots = st.active.frame.slots ∧ a.frame.view.base = st.base
  again st s a st' := Reentered st.place s a.machine st'.place ∧
    st'.active.frame = a.frame.placed st'.base ∧
    ∀ r < a.frame.slots, st'.active.machine.thread.stack.slot (st'.base + r) =
      a.machine.thread.stack.slot (a.frame.view.base + r)
  re chain st := (do
    Body.lift (perform n (.replay chain (D.answer st.place) st.active.frame.above))
    body) st.active

/-- Two activations of one body beside each other, with the frame `f` but for its base, that agree
on the registers `K`. -/
structure Parallel (D : Partner) (y : Machine Answer Dialogue) (base : Nat) (K : Nat → Prop)
    (f : Frame) (st : Stage) (a b : Active Answer Dialogue) : Prop where
  beside : Beside D y base st.place a.machine b.machine
  twin : Twin (D.origin a.machine b.machine st.base base) K f a b
  slots : f.slots = st.active.frame.slots

namespace Parallel

variable {y : Machine Answer Dialogue} {base : Nat} {K K' : Nat → Prop} {f g : Frame} {st : Stage}
variable {a b a' b' : Active Answer Dialogue}

theorem weaken (h : Parallel D y base K f st a b) (hK : ∀ r, K' r → K r) :
    Parallel D y base K' f st a b := { h with twin := h.twin.weaken hK }

/-- Both activations go on. -/
theorem go (h : Parallel D y base K f st a b) (hg : g.slots = f.slots)
    (ht : Twin (D.origin a.machine b.machine st.base base) K' g a' b') :
    Parallel D y base K' g st a' b' where
  beside := h.beside.go (Nat.le_refl _) (Nat.le_refl _) ht.toParted
  twin :=
    { (h.beside.go (Nat.le_refl _) (Nat.le_refl _) ht.toParted).parted st.base base with
      leftFrame := ht.leftFrame
      rightFrame := ht.rightFrame
      regs := ht.regs
      bare := fun _ _ => False.elim }
  slots := hg.trans h.slots

/-- Both activations have left their body. -/
theorem apart (h : Parallel D y base K f st a b)
    (ha : Apart (D.origin a.machine b.machine st.base base) a' b') :
    Beside D y base st.place a'.machine b'.machine :=
  h.beside.go (Nat.le_refl _) (Nat.le_refl _) ha

end Parallel

/-! ## Steps without a call -/

section Steps

variable {α β : Type} {y : Machine Answer Dialogue} {base : Nat} {K : Nat → Prop} {f : Frame}
variable {st : Stage} {a b : Active Answer Dialogue} {body : Body Answer Dialogue Unit} {κ : Budget}

/-- Steps that run in step, and then activations of which one follows the other. -/
theorem Parallel.after (h : Parallel D y base K f st a b) {x : Body Answer Dialogue α}
    {z : Body Answer Dialogue β} {Q : α → β → Active Answer Dialogue → Active Answer Dialogue → Prop}
    {k : α → Body Answer Dialogue Unit} {l : β → Body Answer Dialogue Unit}
    (hx : Paired (Apart (D.origin a.machine b.machine st.base base))
      (Twin (D.origin a.machine b.machine st.base base) K f) x z Q)
    (hk : ∀ u v a b, Q u v a b → Follows (bodies D n body y base) κ st (k u a) (l v b)) :
    Follows (bodies D n body y base) κ st ((x >>= k) a) ((z >>= l) b) :=
  Follows.after hx h.twin (fun _ _ ha => h.apart ha) hk

/-- A step that keeps the frame and runs in step with itself, and what follows it. -/
theorem Parallel.seq (h : Parallel D y base K f st a b) {K' : Nat → Prop}
    {x z : Body Answer Dialogue α} {k l : α → Body Answer Dialogue Unit}
    (hx : Paired (Apart (D.origin a.machine b.machine st.base base))
      (Twin (D.origin a.machine b.machine st.base base) K f) x z
      fun u v a' b' => u = v ∧ Twin (D.origin a.machine b.machine st.base base) K' f a' b')
    (hk : ∀ u a b, Parallel D y base K' f st a b →
      Follows (bodies D n body y base) κ st (k u a) (l u b)) :
    Follows (bodies D n body y base) κ st ((x >>= k) a) ((z >>= l) b) :=
  h.after hx fun u _ a b hab => hab.1 ▸ hk u a b (h.go rfl hab.2)

/-- A step in which a body ends. -/
theorem Parallel.last (h : Parallel D y base K f st a b) {K' : Nat → Prop}
    {x z : Body Answer Dialogue Unit}
    (hx : Paired (Apart (D.origin a.machine b.machine st.base base))
      (Twin (D.origin a.machine b.machine st.base base) K f) x z
      fun u v a' b' => u = v ∧ Twin (D.origin a.machine b.machine st.base base) K' f a' b') :
    Follows (bodies D n body y base) κ st (x a) (z b) :=
  Follows.of_paired hx h.twin (fun _ _ ha => h.apart ha) fun _ _ _ _ hab => h.apart hab.2.apart

end Steps

/-! ## A call of a body -/

/-- What a body makes of the ending of a request: it goes on with `rest` on its frame. -/
def onward (frame : Frame) (rest : Body Answer Dialogue Unit) :
    EStateM.Result Unwind (Machine Answer Dialogue) Unit →
      EStateM.Result Unwind (Active Answer Dialogue) Unit
  | .ok _ m => rest ⟨frame, m⟩
  | .error e m => .error e ⟨frame, m⟩

theorem lift_onward (x : M Answer Dialogue Unit) (rest : Body Answer Dialogue Unit) (frame : Frame)
    (m : Machine Answer Dialogue) :
    (do Body.lift x; rest : Body Answer Dialogue Unit) ⟨frame, m⟩ = onward frame rest (x m) := by
  show EStateM.bind (Body.lift x) (fun _ => rest) ⟨frame, m⟩ = _
  unfold EStateM.bind Body.lift onward
  dsimp only
  cases x m <;> rfl

theorem onward_congr {frame : Frame} {rest rest' : Body Answer Dialogue Unit}
    (h : ∀ m, rest ⟨frame, m⟩ = rest' ⟨frame, m⟩)
    (r : EStateM.Result Unwind (Machine Answer Dialogue) Unit) :
    onward frame rest r = onward frame rest' r := by
  cases r with
  | ok u m => exact h m
  | error e m => rfl

/-- A call of a body: the frame in which it is made, the registers that are known below its
window, and the right activation, which goes on with `last`. The left one goes on with `rest`; its
loops have fuel `l`, under which it is as `C` says. -/
structure Pending where
  frame : Frame
  K : Nat → Prop
  offset : Nat
  right : Machine Answer Dialogue
  base : Nat
  rest : Nat → Body Answer Dialogue Unit
  last : Body Answer Dialogue Unit
  C : Budget → Nat → Prop

/-- The left frame `i.1` in a call, and the place `z` at which the callee was last entered in the
stage `st`. -/
structure Pending.Joins (c : Pending) (κ : Budget) (i : Frame × Nat) (z : Place) (st : Stage) :
    Prop where
  fuel : c.C κ i.2
  frame : i.1 = c.frame.placed st.base
  slots : c.frame.slots = st.active.frame.slots
  asked : z.asked = st.asked
  window : st.base + c.offset ≤ z.window.base
  evolves : st.active.machine.Evolves st.base z.machine
  coroutines : z.machine.heap.coroutines = st.active.machine.heap.coroutines
  regs : ∀ r, c.K r → r < c.offset → z.machine.thread.stack.slot (st.base + r) =
    c.right.thread.stack.slot (c.base + r)

namespace Pending

variable {c : Pending} {y : Machine Answer Dialogue} {base' : Nat} {κ : Budget} {i : Frame × Nat}
variable {z : Place} {st : Stage} {body : Body Answer Dialogue Unit}

/-- The registers that are known when the call has ended. -/
def After (c : Pending) (r : Nat) : Prop := c.K r ∧ r < c.offset

/-- When the call has ended, both activations are as they were below its window. -/
theorem Joins.beside {a b : Machine Answer Dialogue} (h : c.Joins κ i z st)
    (hab : Beside D c.right base' z a b) (hy : y.Evolves c.base c.right) (hbase : c.base ≤ base') :
    Beside D y c.base st.place a b :=
  hab.outward h.asked h.evolves h.coroutines (Nat.le_trans (Nat.le_add_right _ _) h.window) hy hbase

theorem Joins.parallel {a b : Machine Answer Dialogue} (h : c.Joins κ i z st)
    (hab : Beside D c.right base' z a b) (hy : y.Evolves c.base c.right)
    (hbase : c.base + c.offset ≤ base') :
    Parallel D y c.base c.After c.frame st ⟨i.1, a⟩ ⟨c.frame.placed c.base, b⟩ where
  beside := h.beside hab hy (Nat.le_trans (Nat.le_add_right _ _) hbase)
  twin :=
    { (h.beside hab hy (Nat.le_trans (Nat.le_add_right _ _) hbase)).parted st.base c.base with
      leftFrame := h.frame
      rightFrame := rfl
      regs := fun r hr => by
        have hleft := hab.left.stack.slot (st.base + r)
          (Nat.lt_of_lt_of_le (Nat.add_lt_add_left hr.2 _) h.window)
        have hright := hab.right.stack.slot (c.base + r)
          (Nat.lt_of_lt_of_le (Nat.add_lt_add_left hr.2 _) hbase)
        show a.thread.stack.slot (st.base + r) = b.thread.stack.slot (c.base + r)
        rw [hleft, hright, h.regs r hr.1 hr.2]
      bare := fun _ _ => False.elim }
  slots := h.slots

/-- What surrounds a call of a body, if the callee is resumed as the body is. -/
theorem frames {left : Place → Suspension → Machine Answer Dialogue → Prop}
    {re : List Link → Place → EStateM.Result Unwind (Machine Answer Dialogue) Unit}
    (hy : y.Evolves c.base c.right) (hbase : c.base + c.offset ≤ base')
    (hrest : ∀ {κ : Budget} {l : Nat} {st : Stage} {a b : Active Answer Dialogue}, c.C κ l →
      Parallel D y c.base c.After c.frame st a b →
      Follows (bodies D n body y c.base) κ st (c.rest l a) (c.last b))
    (hsuspend : ∀ {κ i z st s a}, c.Joins κ i z st → left z s a →
      (bodies D n body y c.base).left st s ⟨i.1, a⟩ ∧ (κ ≠ some 0 → ∀ st',
        (bodies D n body y c.base).again st s ⟨i.1, a⟩ st' → ∃ i' z', Reentered z s a z' ∧
          c.Joins κ.next i' z' st' ∧ (bodies D n body y c.base).re s.chain st' =
            onward i'.1 (c.rest i'.2) (re s.chain z'))) :
    Follows.Frames (levelled D c.right base' Unit left re) (bodies D n body y c.base)
      (fun i => onward i.1 (c.rest i.2)) (onward (c.frame.placed c.base) c.last) c.Joins where
  ok hjoins hok := hrest hjoins.fuel (hjoins.parallel hok.2 hy hbase)
  error hjoins he herror :=
    .error he (hjoins.beside herror hy (Nat.le_trans (Nat.le_add_right _ _) hbase))
  suspend hjoins hleft := ⟨_, _, rfl, hsuspend hjoins hleft⟩
  exhaustedLeft _ _ := ⟨_, rfl⟩
  exhaustedRight _ := ⟨_, rfl⟩
  misplaced _ := ⟨_, rfl⟩

/-- A suspended call is replayed above the frame of the body, which then goes on as it would have
gone on without the pause. -/
theorem Joins.suspend {s : Suspension} {a : Machine Answer Dialogue} (h : c.Joins κ i z st)
    (ha : Paused z a) (hindex : c.frame.index ≠ 0) (hoffset : c.offset ≤ c.frame.slots)
    (hC : ∀ {κ : Budget} {l : Nat}, κ ≠ some 0 → c.C κ l → c.C κ.next n)
    (hbody : ∀ frame m, frame.index = c.frame.index → body ⟨frame, m⟩ = c.rest n ⟨frame, m⟩) :
    (bodies D n body y c.base).left st s ⟨i.1, a⟩ ∧ (κ ≠ some 0 → ∀ st',
      (bodies D n body y c.base).again st s ⟨i.1, a⟩ st' → ∃ i' z', Reentered z s a z' ∧
        c.Joins κ.next i' z' st' ∧ (bodies D n body y c.base).re s.chain st' =
          onward i'.1 (c.rest i'.2) (perform n (.replay s.chain (D.answer z') z'.window)
            z'.machine)) := by
  have hle : st.base ≤ z.window.base := Nat.le_trans (Nat.le_add_right _ _) h.window
  refine ⟨⟨⟨h.evolves.trans (ha.evolves.mono hle), ha.coroutines.trans h.coroutines,
    ha.boundaries⟩, ?_, ?_, ?_⟩, ?_⟩
  · rw [h.frame]
    exact hindex
  · rw [h.frame]
    exact h.slots
  · rw [h.frame]
    rfl
  · rintro hκ st' ⟨hre, hframe, hslots⟩
    rw [h.frame] at hframe hslots
    refine ⟨(st'.active.frame, n), ⟨st'.active.frame.above, st'.active.machine, st'.asked⟩,
      ⟨by rw [h.asked]; exact hre.asked, hre.renewed, hre.active⟩, ?_, ?_⟩
    · refine ⟨hC hκ h.fuel, hframe, (congrArg Frame.slots hframe).symm, rfl, ?_, .refl _ _, rfl, ?_⟩
      · have hwidth : c.offset ≤ st'.active.frame.slots := by
          rw [hframe]
          exact hoffset
        exact Nat.add_le_add_left hwidth _
      · intro r hr hlt
        have hkept := ha.evolves.stack.slot (st.base + r)
          (Nat.lt_of_lt_of_le (Nat.add_lt_add_left hlt _) h.window)
        have hsaved := hslots r (Nat.lt_of_lt_of_le hlt hoffset)
        rw [← h.regs r hr hlt, ← hkept]
        exact hsaved
    · have hgoOn : ∀ m, body ⟨st'.active.frame, m⟩ = c.rest n ⟨st'.active.frame, m⟩ :=
        fun m => hbody _ m (by rw [hframe]; rfl)
      show (do Body.lift _; body : Body Answer Dialogue Unit) ⟨st'.active.frame, _⟩ = _
      rw [lift_onward]
      exact onward_congr hgoOn _

end Pending

/-- Requests with fuel `n` on the left follow those on the right, from windows with equal live
slots on. -/
def Answered (D : Partner) (n : Nat) : Prop :=
  ∀ {κ : Budget} {n' : Nat} {window window' : View} {a b : Machine Answer Dialogue}
    {asked : List (List Val)} (target : Val), κ.Levels n n' →
    Beside D b window'.base ⟨window, a, asked⟩ a b → window.top = window'.top →
    (∀ i < window.top, window.slot a.thread.stack i = window'.slot b.thread.stack i) →
    Follows (requests D n b window'.base) κ ⟨window, a, asked⟩ (perform n (.call window target) a)
      (perform n' (.call window' target) b)

section Call

variable {y : Machine Answer Dialogue} {base n' : Nat} {K : Nat → Prop} {f : Frame} {st : Stage}
variable {a b : Active Answer Dialogue} {body : Body Answer Dialogue Unit} {κ : Budget}
variable {last : Body Answer Dialogue Unit} {k l : Nat} {C : Budget → Nat → Prop} {w w' : View}
variable {target : Val} (h : Parallel D y base K f st a b)
variable (rest : Nat → Body Answer Dialogue Unit) (offset : Nat)

include h

/-- Activations at a call join. -/
theorem Parallel.joins (hC : C κ l) (hw : w = ⟨st.base + offset, k⟩) :
    (Pending.mk f K offset b.machine base rest last C).Joins κ (a.frame, l)
      ⟨w, a.machine, st.asked⟩ st where
  fuel := hC
  frame := h.twin.leftFrame
  slots := h.slots
  asked := rfl
  window := Nat.le_of_eq (congrArg View.base hw).symm
  evolves := h.beside.left
  coroutines := h.beside.coroutines
  regs r hr _ := h.twin.regs r hr

/-- What is called on windows at one offset follows. -/
theorem Parallel.callee (target : Val) (hreq : Answered D n) (hlevels : κ.Levels n n')
    (hw : Body.Offset (D.origin a.machine b.machine st.base base) offset k w w' a b) :
    Follows (requests D n b.machine w'.base) κ ⟨w, a.machine, st.asked⟩
      (perform n (.call w target) a.machine) (perform n' (.call w' target) b.machine) := by
  have hleft : w = ⟨st.base + offset, k⟩ := hw.left
  have hright : w' = ⟨base + offset, k⟩ := hw.right
  refine hreq target hlevels (h.beside.restart w w'.base) ?_ fun i hi => ?_
  · rw [hleft, hright]
  · rw [hleft] at hi
    exact hw.slots i hi

/-- A body follows through a step of the machine that follows, if it follows behind it. -/
theorem Parallel.lifted {left : Place → Suspension → Machine Answer Dialogue → Prop}
    {re : List Link → Place → EStateM.Result Unwind (Machine Answer Dialogue) Unit}
    {x x' : M Answer Dialogue Unit}
    (hw : Body.Offset (D.origin a.machine b.machine st.base base) offset k w w' a b)
    (hcallee : Follows (levelled D b.machine w'.base Unit left re) κ ⟨w, a.machine, st.asked⟩
      (x a.machine) (x' b.machine)) (hl : C κ l)
    (hrest : ∀ {κ : Budget} {l : Nat} {st : Stage} {a b : Active Answer Dialogue}, C κ l →
      Parallel D y base (fun r => K r ∧ r < offset) f st a b →
      Follows (bodies D n body y base) κ st (rest l a) (last b))
    (hsuspend : ∀ {κ i z st s m},
      (Pending.mk f K offset b.machine base rest last C).Joins κ i z st → left z s m →
      (bodies D n body y base).left st s ⟨i.1, m⟩ ∧ (κ ≠ some 0 → ∀ st',
        (bodies D n body y base).again st s ⟨i.1, m⟩ st' → ∃ i' z', Reentered z s m z' ∧
          (Pending.mk f K offset b.machine base rest last C).Joins κ.next i' z' st' ∧
            (bodies D n body y base).re s.chain st' =
              onward i'.1 (rest i'.2) (re s.chain z'))) :
    Follows (bodies D n body y base) κ st ((do Body.lift x; rest l) a)
      ((do Body.lift x'; last) b) := by
  have hbase : base + offset ≤ w'.base := Nat.le_of_eq (congrArg View.base hw.right).symm
  have hframes := Pending.frames h.beside.right hbase hrest hsuspend
  have hfollows := hcallee.through hframes (h.joins rest offset hl hw.left)
  obtain ⟨frame, m⟩ := a
  obtain ⟨frame', m'⟩ := b
  obtain rfl : frame' = f.placed base := h.twin.rightFrame
  rw [lift_onward, lift_onward]
  exact hfollows

/-- **Calls of bodies.** A body follows through a call if it follows behind it. -/
theorem Parallel.call (hreq : Answered D n) (hlevels : κ.Levels n n')
    (hw : Body.Offset (D.origin a.machine b.machine st.base base) offset k w w' a b)
    (hindex : f.index ≠ 0) (hoffset : offset ≤ f.slots) (hl : C κ l)
    (hC : ∀ {κ : Budget} {l : Nat}, κ ≠ some 0 → C κ l → C κ.next n)
    (hbody : ∀ frame m, frame.index = f.index → body ⟨frame, m⟩ = rest n ⟨frame, m⟩)
    (hrest : ∀ {κ : Budget} {l : Nat} {st : Stage} {a b : Active Answer Dialogue}, C κ l →
      Parallel D y base (fun r => K r ∧ r < offset) f st a b →
      Follows (bodies D n body y base) κ st (rest l a) (last b)) :
    Follows (bodies D n body y base) κ st ((do Body.lift (perform n (.call w target)); rest l) a)
      ((do Body.lift (perform n' (.call w' target)); last) b) :=
  h.lifted rest offset hw (h.callee offset target hreq hlevels hw) hl hrest
    fun hjoins hpaused => hjoins.suspend hpaused hindex hoffset hC hbody

/-- A call that is not suspended needs no place to go on from. -/
theorem Parallel.callOnce (hreq : Answered D n) (hlevels : κ.Levels n n')
    (hw : Body.Offset (D.origin a.machine b.machine st.base base) offset k w w' a b)
    (hcallee : ∀ s t, perform n (.call w target) a.machine ≠ .error (.suspend s) t) (hl : C κ l)
    (hrest : ∀ {κ : Budget} {l : Nat} {st : Stage} {a b : Active Answer Dialogue}, C κ l →
      Parallel D y base (fun r => K r ∧ r < offset) f st a b →
      Follows (bodies D n body y base) κ st (rest l a) (last b)) :
    Follows (bodies D n body y base) κ st ((do Body.lift (perform n (.call w target)); rest l) a)
      ((do Body.lift (perform n' (.call w' target)); last) b) :=
  have hunpaused : Follows (unpaused D b.machine w'.base Unit) κ ⟨w, a.machine, st.asked⟩ _ _ :=
    (h.callee offset target hreq hlevels hw).unsuspended hcallee rfl rfl
  h.lifted rest offset hw hunpaused hl hrest fun _ hleft => hleft.elim

end Call

/-! ## Compiled bodies -/

namespace Interpreter

section Run

variable {F S : Type} (fuel : Nat) (P : Perform F S) (function : FnId) (p : Proto) {frame : Frame}

/-- A body that is entered. -/
theorem run_of_entry (h : frame.index = 0) (m : Machine F S) :
    run fuel P function p ⟨frame, m⟩ =
      (do reifyParams p 0 p.params; loop P function p fuel 0 : Body F S Unit) ⟨frame, m⟩ := by
  show (if frame.index = 0 then _ else _ : Body F S Unit) ⟨frame, m⟩ = _
  rw [if_pos h]

/-- A body that is re-entered behind its entry. -/
theorem run_of_index {pc : Nat} (h : frame.index = pc + 1) (m : Machine F S) :
    run fuel P function p ⟨frame, m⟩ =
      (do complete p pc; loop P function p fuel (pc + 1) : Body F S Unit) ⟨frame, m⟩ := by
  show (if frame.index = 0 then _ else _ : Body F S Unit) ⟨frame, m⟩ = _
  rw [if_neg (by rw [h]; exact Nat.succ_ne_zero pc), h]
  rfl

end Run

variable {y : Machine Answer Dialogue} {base n' : Nat} (hreq : Answered D n) (function : FnId)
variable {p : Proto} (hp : p.Orderly)

include hreq hp

/-- **Compiled bodies with pauses.** A loop of a tidy body follows itself. -/
theorem loop_follows {l' : Nat} {κ : Budget} {l pc : Nat} {f : Frame} {st : Stage}
    {a b : Active Answer Dialogue} (hfuel : κ.Fuels n l l') (hlevels : κ.Levels n n')
    (hreach : p.Reaches pc) (hslots : f.slots = p.slots)
    (h : Parallel D y base (p.Known pc f.view.top) f st a b) :
    Follows (bodies D n (run n (perform n) function p) y base) κ st
      (loop (perform n) function p l pc a) (loop (perform n') function p l' pc b) := by
  -- The left run gets new fuel with every resume, so the induction is on the fuel of the right one.
  induction l' generalizing κ l pc f st a b with
  | zero =>
    refine .of_spent (hfuel.spent (.inr rfl)) (fun hl => ?_) fun _ => ⟨_, rfl⟩
    subst hl
    exact ⟨_, rfl⟩
  | succ l' ih =>
    cases l with
    | zero => exact .of_spent (hfuel.spent (.inl rfl)) (fun _ => ⟨_, rfl⟩) nofun
    | succ l =>
      unfold loop
      cases hop : p.code[pc]? with
      | none =>
        exact h.last (lift_paired fun hR => giveAll_inStep hR [])
      | some op =>
        have hcheck := Proto.checkOp_of_check hp.check hop
        -- what is known behind the operation, if it writes the registers that it is to write
        have hknown : ∀ {next : Nat} {g : Frame} {r : Nat}, op.Next pc next →
            (op.Opens ∨ g.view.top = f.view.top) → p.Known next g.view.top r →
            p.Known pc f.view.top r ∧ r < op.windowAt f.slots ∨ op.Writes g.view.top r :=
          fun hnext htop hr => hslots ▸ Proto.known_next hreach hop hnext htop hr
        dsimp only
        rw [execute_eq _ _ hop, execute_eq _ _ hop, bind_assoc, bind_assoc]
        have hsame : ∀ {o : Origin Answer Dialogue}, o.scope = D.scope → o.OneBody →
            Corresponds o p p pc pc op op := fun hscope ho =>
          .refl ho (hscope ▸ hp.nests D) pc op
        refine h.after (prepare_paired function (hsame rfl (D.oneBody ..))
          fun r hr => hp.known_of_reads hop hr) fun turn turn' a' b' hturn => ?_
        cases turn <;> cases turn'
        case goto.goto next next' =>
          obtain ⟨hgoto, hnext, g, hs, -, htop, -, hg⟩ := hturn
          obtain rfl : next' = next := Nat.succ.inj hgoto
          refine ih hfuel.step hlevels (.step hreach hop hnext) (hs.trans hslots)
            ((h.go hs hg).weaken fun r hr => ?_)
          exact (hknown hnext htop hr).imp_left And.left
        case done.done => exact .ok (h.apart (Twin.apart hturn.1))
        case ask.ask w target w' target' =>
          obtain ⟨rfl, hmay, ht, k, hw⟩ := hturn
          have hnext := Op.next_of_maySuspend hmay pc
          simp only [finish, bind_assoc, pure_bind]
          refine (h.go (g := { f with index := pc + 1 }) rfl ht).call
            (fun l => do complete p pc; loop (perform n) function p l (pc + 1))
            (op.windowAt f.slots) (C := fun κ l => κ.Fuels n l l' ∧ κ.Levels n n')
            hreq hlevels ⟨hw.left, hw.right, hw.slots⟩ (Nat.succ_ne_zero pc) ?_
            ⟨hfuel.step, hlevels⟩ (fun hκ hC => ⟨hC.1.next hκ, hC.2.next⟩)
            (fun frame m hindex => run_of_index _ _ function p hindex m) ?_
          · rw [hslots]
            exact Proto.windowAt_le hcheck
          · intro κ l st a b hC hab
            refine hab.after (complete_paired trivial (hsame rfl (D.oneBody ..)) hop hop
              fun _ => ⟨rfl, rfl⟩) fun _ _ a' b' hcomplete => ?_
            obtain ⟨g, hs, -, htop, -, hg⟩ := hcomplete
            refine ih hC.1 hC.2 (.step hreach hop hnext) (hs.trans hslots)
              ((hab.go hs hg).weaken fun r hr => ?_)
            exact hknown hnext htop hr
        all_goals exact hturn.elim

/-- A tidy body on a fresh frame follows itself. -/
theorem run_follows {κ : Budget} {f : Frame} {st : Stage} {a b : Active Answer Dialogue}
    (hfuel : κ.Fuels n n n') (hlevels : κ.Levels n n') (hindex : f.index = 0)
    (hslots : f.slots = p.slots) (h : Parallel D y base (fun r => r < p.slots) f st a b) :
    Follows (bodies D n (run n (perform n) function p) y base) κ st
      (run n (perform n) function p a) (run n' (perform n') function p b) := by
  rw [run_of_entry n _ function p (by rw [h.twin.leftFrame]; exact hindex),
    run_of_entry n' _ function p (by rw [h.twin.rightFrame]; exact hindex)]
  refine h.seq (reifyParams_paired p 0 p.params (fun i _ hi => ?_) fun _ _ => id)
    fun _ a b hab => ?_
  · have hparams := Proto.params_le_of_check hp.check
    show i < p.slots
    omega
  · exact loop_follows hreq function hp hfuel hlevels .entry hslots
      (hab.weaken fun r hr => hr.lt_of_entry)

end Interpreter

/-! ## Hand-written bodies -/

/-- What is known of the results of the left of two steps in step. -/
theorem Paired.left {σ τ α β : Type} {E R : σ → τ → Prop} {x : EStateM Unwind σ α}
    {y : EStateM Unwind τ β} {Q : α → β → σ → τ → Prop} (h : Paired E R x y Q) {p : α → Prop}
    (hx : ∀ a u a', x a = .ok u a' → p u) : Paired E R x y fun u v a b => p u ∧ Q u v a b := by
  intro a b hab
  have h := h a b hab
  cases hxa : x a <;> cases hyb : y b <;> rw [hxa, hyb] at h
  · exact ⟨hx _ _ _ hxa, h⟩
  · exact h.elim
  · exact h.elim
  · exact h

namespace Routine

variable {y : Machine Answer Dialogue} {base n' : Nat} {κ : Budget} {f : Frame} {st : Stage}
variable {a b : Active Answer Dialogue}

/-- The counting body follows itself. -/
theorem recurse_follows (hreq : Answered D n) (hlevels : κ.Levels n n') (packed : Bool)
    (hindex : f.index = 0)
    (h : Parallel D y base (fun r => r < (Routine.recurse packed).layout.slots) f st a b) :
    Follows (bodies D n (runRecurse (perform n) packed) y base) κ st
      (runRecurse (perform n) packed a) (runRecurse (perform n') packed b) := by
  have hentry : ∀ (P : Perform Answer Dialogue) (s : Active Answer Dialogue), s.frame.index = 0 →
      runRecurse P packed s = (recurseTurn packed s.frame >>= callOnce P recurseEnd) s := by
    intro P s hs
    rw [runRecurse_eq]
    show (if s.frame.index = 0 then _ else _ : Body Answer Dialogue Unit) s = _
    rw [if_pos hs]
  rw [hentry _ a (by rw [h.twin.leftFrame]; exact hindex),
    hentry _ b (by rw [h.twin.rightFrame]; exact hindex)]
  have hvarargs : a.frame.varargs = b.frame.varargs := by
    rw [h.twin.leftFrame, h.twin.rightFrame]
    rfl
  refine h.after (recurseTurn_paired (D.oneBody ..) packed hvarargs fun hpacked => ?_) fun t t' a' b' hturn => ?_
  · subst hpacked
    exact ⟨by decide, by decide⟩
  · cases t <;> cases t'
    case done.done => exact .ok (h.apart (Twin.apart hturn))
    case ask.ask w target w' target' =>
      obtain ⟨rfl, ht, k, hw⟩ := hturn
      refine (h.go (g := { f with index := 1 }) rfl ht).call (fun _ => recurseEnd) f.slots
        (l := 0) (C := fun _ _ => True) hreq hlevels ⟨hw.left, hw.right, hw.slots⟩
        Nat.one_ne_zero (Nat.le_refl _) trivial (fun _ _ => trivial) (fun frame m hframe => ?_) ?_
      · rw [runRecurse_eq]
        show (if frame.index = 0 then _ else _ : Body Answer Dialogue Unit) ⟨frame, m⟩ = _
        rw [if_neg (by rw [hframe]; exact Nat.one_ne_zero), if_pos hframe]
      · intro κ l st a b _ hab
        exact hab.last (recurseEnd_paired trivial)
    all_goals exact hturn.elim

/-- The sum of three integers is a value. -/
theorem add3_values {F S : Type} {args : View} {m t : Machine F S} {u : Unit}
    (h : add3 args m = .ok u t) : ∃ values, t.thread.results = .ofValues values := by
  unfold add3 at h
  obtain ⟨_, _, -, h⟩ := ok_of_bind h
  obtain ⟨_, _, -, h⟩ := ok_of_bind h
  obtain ⟨_, _, -, h⟩ := ok_of_bind h
  obtain ⟨_, _, -, h⟩ := ok_of_bind h
  obtain ⟨_, _, -, h⟩ := ok_of_bind h
  obtain ⟨_, _, -, h⟩ := ok_of_bind h
  obtain ⟨_, _, -, h⟩ := ok_of_bind h
  obtain ⟨_, _, -, h⟩ := ok_of_bind h
  cases h
  exact ⟨_, rfl⟩

end Routine

namespace Machine

section Adders

variable {F S : Type} [HostBody F S] {fuel : Nat} {window : View} {g : FnId} {m : Machine F S}

/-- A call of the function that adds three integers is counted in and adds them. -/
theorem invoke_adder (P : Perform F S) (hg : m.heap.function g = .builtin .add3) : ∃ t,
    invoke (runner fuel P) window (.fn g) m =
      if t.world.config.maxCallDepth ≤ t.thread.depth then
        .error (.fault (.stackOverflow t.thread.depth)) t
      else ensuring (Routine.add3 ⟨window.base, 3⟩) leave (entered t) := by
  obtain ⟨x, hfit⟩ := onStack_ok (window.fit · 3) m
  obtain ⟨x', hrecord⟩ := record_ok (m.restack (window.fit m.thread.stack 3).2 x) fun _ =>
    .invoke Builtin.add3.name 3 m.thread.depth
  let t : Machine F S := { m.restack (window.fit m.thread.stack 3).2 x with trace := x' }
  have hrun : runFunction fuel P g ⟨window.base, 3⟩ (entered t) =
      Routine.add3 ⟨window.base, 3⟩ (entered t) := by
    unfold runFunction
    rw [functionAt_bind, show (entered t).heap.function g = .builtin .add3 from hg]
    rfl
  refine ⟨t, ?_⟩
  have hshaped : invoke (runner fuel P) window (.fn g) m =
      (do enter; ensuring (runFunction fuel P g ⟨window.base, 3⟩) leave) t := by
    unfold invoke
    simp only [resolve_fn, pure_bind]
    refine (bind_of_ok (show (config : M F S Config) m = .ok m.world.config m from rfl)).trans ?_
    rw [functionAt_bind, hg]
    refine (bind_of_ok hfit).trans ?_
    rw [View.fit_fst]
    exact bind_of_ok hrecord
  rw [hshaped, Regime.counted_eq]
  unfold ensuring
  rw [hrun]

/-- A call of the function that adds three integers is not suspended. -/
theorem adder_unsuspended (hg : m.heap.function g = .builtin .add3) (fuel : Nat) (window : View) :
    ∀ s t, perform fuel (.call window (.fn g)) m ≠ .error (.suspend s) t := by
  cases fuel with
  | zero => exact nofun
  | succ fuel =>
    obtain ⟨t, ht⟩ := invoke_adder (perform fuel) hg
    intro s u h
    have h : (invoke (runner fuel (perform fuel)) window (.fn g) >>= fun _ =>
      drain (runner fuel (perform fuel)) window fuel) m = .error (.suspend s) u := h
    by_cases hdepth : t.world.config.maxCallDepth ≤ t.thread.depth
    · rw [if_pos hdepth] at ht
      rw [bind_of_error ht] at h
      cases h
    rw [if_neg hdepth] at ht
    have hplain := (still_of_inStep (m := entered t) (Routine.add3_answers (Abreast.closed _)
      fun i _ a b hab => hab.slot ⟨window.base, 3⟩ i).inStep).2
    unfold ensuring at ht
    cases hadd : Routine.add3 ⟨window.base, 3⟩ (entered t) with
    | ok u v =>
      rw [hadd] at ht
      rw [bind_of_ok ht] at h
      obtain ⟨values, hvalues⟩ := Routine.add3_values hadd
      cases fuel with
      | zero => cases h
      | succ fuel =>
        have hdrain := drain_values (runner (fuel + 1) (perform (fuel + 1))) window fuel
          (show (leave v).thread.results = .ofValues values from hvalues)
        cases hdrain.symm.trans h
    | error e v =>
      rw [hadd] at ht
      rw [bind_of_error ht] at h
      cases h
      exact (hplain _ _ hadd).1

end Adders

end Machine

namespace Routine

variable {y : Machine Answer Dialogue} {base n' : Nat} {κ : Budget} {f : Frame} {st : Stage}
variable {a b : Active Answer Dialogue}

/-- A step of the sum calls nothing but the function that adds. -/
theorem sumTurn_target {add3 : Val} {count i : Int64} {s t : Active Answer Dialogue} {turn : Interpreter.Turn}
    (h : sumTurn add3 count i s = .ok turn t) (w : View) (v : Val) (hturn : turn = .ask w v) :
    v = add3 := by
  subst hturn
  unfold sumTurn at h
  obtain ⟨acc, _, -, h⟩ := ok_of_bind h
  by_cases hcount : count ≤ i
  · rw [if_pos hcount] at h
    obtain ⟨_, _, -, h⟩ := ok_of_bind h
    cases h
  · rw [if_neg hcount] at h
    obtain ⟨_, _, -, h⟩ := ok_of_bind h
    obtain ⟨_, _, -, h⟩ := ok_of_bind h
    obtain ⟨_, _, -, h⟩ := ok_of_bind h
    obtain ⟨_, _, -, h⟩ := ok_of_bind h
    cases h
    rfl

/-- The steps of the sum follow each other; the body keeps what it needs in its first three
slots. -/
theorem sumFrom_follows (hreq : Answered D n) {g : FnId} (hg : D.adders g) (count : Int64)
    {body : Body Answer Dialogue Unit} {l l' : Nat} (hfuel : κ.Fuels n l l')
    (hlevels : κ.Levels n n') (h : Parallel D y base (fun r => r < 3) f st a b) :
    Follows (bodies D n body y base) κ st (sumFrom (perform n) (.fn g) count l a)
      (sumFrom (perform n') (.fn g) count l' b) := by
  induction l' generalizing κ l f st a b with
  | zero =>
    refine .of_spent (hfuel.spent (.inr rfl)) (fun hl => ?_) fun _ => ⟨_, rfl⟩
    subst hl
    exact ⟨_, rfl⟩
  | succ l' ih =>
    cases l with
    | zero => exact .of_spent (hfuel.spent (.inl rfl)) (fun _ => ⟨_, rfl⟩) nofun
    | succ l =>
      rw [sumFrom_succ, sumFrom_succ]
      refine h.seq (sumCount_paired (.fn g) (by decide)) fun i a b h => ?_
      have hturns := (sumTurn_paired (o := D.origin a.machine b.machine st.base base) (f := f)
        (K := fun r => r < 3) (D.oneBody ..) (.fn g) count i (by decide)).left fun _ _ _ hs => sumTurn_target hs
      refine h.after hturns fun t t' a' b' hturn => ?_
      obtain ⟨htarget, hturn⟩ := hturn
      cases t <;> cases t'
      case done.done => exact .ok (h.apart (Twin.apart hturn))
      case ask.ask w target w' target' =>
        obtain ⟨rfl, ht, k, hw⟩ := hturn
        obtain rfl : target = .fn g := htarget w target rfl
        have hgo := h.go (g := { f with index := 1 }) rfl ht
        refine hgo.callOnce (fun l => do takeSum i; sumFrom (perform n) (.fn g) count l) 3
          (C := fun κ l => κ.Fuels n l l' ∧ κ.Levels n n') hreq hlevels
          ⟨hw.left, hw.right, hw.slots⟩ (adder_unsuspended (hgo.beside.adders g hg) n w)
          ⟨hfuel.step, hlevels⟩ ?_
        intro κ l st a b hC hab
        refine hab.seq (takeSum_paired trivial i) fun _ a b hab => ?_
        exact ih hC.1 hC.2 (hab.weaken fun r hr => .inl ⟨hr, hr⟩)
      all_goals exact hturn.elim

/-- The summing body follows itself. -/
theorem sharedSum_follows (hreq : Answered D n) {g : FnId} (hg : D.adders g)
    {body : Body Answer Dialogue Unit} (hfuel : κ.Fuels n n n') (hlevels : κ.Levels n n')
    (hindex : f.index = 0)
    (h : Parallel D y base (fun r => r < (Routine.sharedSum (.fn g)).layout.slots) f st a b) :
    Follows (bodies D n body y base) κ st (runSharedSum n (perform n) (.fn g) a)
      (runSharedSum n' (perform n') (.fn g) b) := by
  have hentry : ∀ (fuel : Nat) (s : Active Answer Dialogue), s.frame.index = 0 →
      runSharedSum fuel (perform fuel) (.fn g) s = (do
        sumEntry (.fn g) 0
        let count ← Body.lift (integer (← Body.getSlot 0) (Routine.sharedSum (.fn g)).name)
        sumFrom (perform fuel) (.fn g) count fuel : Body Answer Dialogue Unit) s := by
    intro fuel s hs
    show (do sumEntry (.fn g) s.frame.index; _ : Body Answer Dialogue Unit) s = _
    rw [hs]
  have hslots : (Routine.sharedSum (.fn g)).layout.slots = 6 := rfl
  rw [hentry n a (by rw [h.twin.leftFrame]; exact hindex),
    hentry n' b (by rw [h.twin.rightFrame]; exact hindex)]
  refine h.seq (sumEntry_paired trivial (.fn g) 0 fun h0 => (h0 rfl).elim) fun _ a b h => ?_
  refine h.seq (Body.getSlot_paired (.inl (by omega))) fun v a b h => ?_
  refine h.seq (Interpreter.lift_paired fun _ => integer_inStep _ _) fun count a b h => ?_
  exact sumFrom_follows hreq hg count hfuel hlevels (h.weaken fun r hr => .inl (by omega))

/-- **Hand-written bodies with pauses.** A hand-written body on a fresh frame follows itself. -/
theorem run_follows (hreq : Answered D n) {r : Routine} (hr : r.Quiet D.adders)
    (hfuel : κ.Fuels n n n') (hlevels : κ.Levels n n') (hindex : f.index = 0)
    (h : Parallel D y base (fun i => i < r.layout.slots) f st a b) :
    Follows (bodies D n (r.run n (perform n)) y base) κ st (r.run n (perform n) a)
      (r.run n' (perform n') b) := by
  cases r with
  | recurse packed => exact recurse_follows hreq hlevels packed hindex h
  | tailStep => exact h.last (runTailStep_paired fun i hi => hi)
  | bounce => exact h.last (runBounce_paired fun i hi => hi)
  | sharedSum add3 =>
    obtain ⟨g, rfl, hg⟩ := hr
    exact sharedSum_follows hreq hg hfuel hlevels hindex h
  | echo => exact hr.elim

end Routine

end ScriptCore
