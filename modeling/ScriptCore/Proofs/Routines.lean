import ScriptCore.Proofs.Registers
import ScriptCore.Routine

/-!
# Hand-written bodies in step

The hand-written bodies in the same form as compiled ones: what they do before a call
(`recurseTurn`, `sumTurn`), and what they do with its outcome. The bodies without a call run in
step as a whole.
-/

namespace ScriptCore

open Machine Interpreter

variable {F S : Type}

namespace Interpreter

section Entry

variable [HostFunction F] {o : Origin F S} {K : Nat → Prop} {f : Frame}

/-- A captured parameter gets its cell on both sides. -/
theorem reifyParams_paired (proto : Proto) (slot n : Nat)
    (hK : ∀ i, slot ≤ i → i < slot + n → K i)
    (hbare : ∀ i, proto.isReified i → ¬ o.bare i) :
    Paired (Apart o) (Twin o K f) (reifyParams proto slot n : Body F S Unit)
      (reifyParams proto slot n) fun u v a b => u = v ∧ Twin o K f a b := by
  induction n generalizing slot with
  | zero => exact pure_paired ()
  | succ n ih =>
    have hrest := ih (slot + 1) fun i h1 h2 => hK i (by omega) (by omega)
    unfold reifyParams
    split
    · rename_i hreified
      refine Paired.bind Body.frame_paired fun u v => ?_
      rintro a b ⟨rfl, rfl, hab⟩
      refine Paired.bind (Q := fun _ _ a b => Twin o K f a b) ?_ (fun _ _ => hrest) a b hab
      have hslot : K slot := hK slot (Nat.le_refl _) (by omega)
      have hvalue : Paired (Apart o) (Twin o K f)
          (Body.lift (valueAt (o.leftFrame f).view slot))
          (Body.lift (valueAt (o.rightFrame f).view slot))
          fun u v a b => u = v ∧ Twin o K f a b :=
        Twin.lift_paired fun hR _ _ hregs => slotValue_inStep hR fun a b h => hregs a b h _ hslot
      unfold reify
      simp only [Body.lift_bind]
      exact hvalue.seq fun value => (lift_paired fun hR => newCell_inStep hR value).seq fun c =>
        (Body.putSlot_paired slot (.cell c) fun h => (hbare slot hreified h).elim).bind fun _ _ =>
          Paired.pure fun a b h => h.2.weaken fun _ hi => .inl hi
    · exact hrest

end Entry

end Interpreter

namespace Routine

/-! ## The counting body -/

/-- What the counting body does before its call. -/
def recurseTurn (packed : Bool) (frame : Frame) : Body F S Turn := do
  let (self, n) ← recurseArgs packed frame
  let n ← Body.lift (integer n (Routine.recurse packed).name)
  if n = 0 then
    Body.lift (give (.int 100))
    return .done
  else
    let args := [self, ← Body.lift (predecessor n)]
    Body.setIndex 1
    let window ← Body.lift (load (← Body.scratch) args)
    return .ask window self

/-- What the counting body does with the outcome of its call. -/
def recurseEnd : Body F S Unit := Body.lift do give (← successor (← result 0))

/-- A body up to its only call, and then the call and its outcome. -/
def callOnce (P : Perform F S) (rest : Body F S Unit) : Turn → Body F S Unit
  | .ask window target => do
    Body.lift (P (.call window target))
    rest
  | _ => pure ()

theorem runRecurse_eq (P : Perform F S) (packed : Bool) :
    runRecurse P packed = (do
      let frame ← Body.frame
      if frame.index = 0 then recurseTurn packed frame >>= callOnce P recurseEnd
      else if frame.index = 1 then recurseEnd
      else
        Body.lift (violate (.noSegment (Routine.recurse packed).name frame.index))
        recurseEnd) := by
  refine bind_congr fun frame => ?_
  dsimp only
  split
  · simp only [recurseTurn, bind_assoc]
    refine bind_congr fun args => bind_congr fun n => ?_
    split
    · simp [callOnce]
    · simp only [Body.callWith, bind_assoc, pure_bind, callOnce]
      rfl
  · by_cases h : frame.index = 1
    · rw [if_neg (not_not_intro h), if_pos h]; rfl
    · rw [if_pos h, if_neg h]; rfl

/-! ## The summing body -/

/-- What a step of the sum up to `n` does before its call; its count is `i`. -/
def sumTurn (add3 : Val) (n i : Int64) : Body F S Turn := do
  let acc ← Body.getSlot 2
  if n ≤ i then
    Body.lift (give acc)
    return .done
  else
    Body.setSlots 3 [acc, .int i, .int 1]
    Body.setIndex 1
    let f ← Body.frame
    let window ← Body.lift (setTop (f.view.child 3) 3)
    return .ask window add3

/-- The count of the sum. -/
def sumCount (add3 : Val) : Body F S Int64 := do
  Body.lift (integer (← Body.getSlot 1) (Routine.sharedSum add3).name)

theorem sumFrom_succ (P : Perform F S) (add3 : Val) (n : Int64) (fuel : Nat) :
    sumFrom P add3 n (fuel + 1) = (do
      let i ← sumCount add3
      sumTurn add3 n i >>= callOnce P (do takeSum i; sumFrom P add3 n fuel)) := by
  rw [sumFrom, sumCount]
  simp only [bind_assoc]
  refine bind_congr fun v => bind_congr fun i => ?_
  simp only [sumTurn, bind_assoc]
  refine bind_congr fun acc => ?_
  split
  · simp [callOnce]
  · simp only [Body.call, bind_assoc, pure_bind, callOnce]

/-! ## In step -/

section InStep

section Machine

variable {R : Machine F S → Machine F S → Prop}

theorem successor_inStep (v : Val) : InStep R Eq (successor v : M F S Val) (successor v) := by
  refine (orFail_inStep fun _ h => (BinOp.apply_ordinary h).own).seq fun w? => ?_
  cases w? with
  | some w => exact .pure rfl
  | none => exact fail_inStep _ trivial

theorem predecessor_inStep (n : Int64) :
    InStep R Eq (predecessor n : M F S Val) (predecessor n) :=
  (orOverflow_inStep _).seq fun _ => .pure rfl

end Machine

variable [HostFunction F] {o : Origin F S} {K : Nat → Prop} {f : Frame}

/-- A turn of a body that calls at most once: its window is at `offset`. -/
def Turned (o : Origin F S) (K : Nat → Prop) (f : Frame) (offset : Nat) :
    Turn → Turn → Active F S → Active F S → Prop
  | .done, .done, x, y => Twin o K f x y
  | .ask w t, .ask w' t', x, y =>
    t = t' ∧ Twin o K { f with index := 1 } x y ∧ ∃ n, Body.Offset o offset n w w' x y
  | _, _, _, _ => False

theorem recurseTurn_paired (ho : o.OneBody) (packed : Bool) {g h : Frame}
    (hg : g.varargs = h.varargs) (hK : packed = false → K 0 ∧ K 1) :
    Paired (Apart o) (Twin o K f) (recurseTurn packed g : Body F S Turn) (recurseTurn packed h)
      (Turned o K f f.slots) := by
  have hargs : Paired (Apart o) (Twin o K f) (recurseArgs packed g : Body F S (Val × Val))
      (recurseArgs packed h) fun u v a b => u = v ∧ Twin o K f a b := by
    unfold recurseArgs
    cases packed with
    | true => rw [hg]; exact pure_paired _
    | false =>
      exact (Body.getSlot_paired (hK rfl).1).seq fun _ =>
        (Body.getSlot_paired (hK rfl).2).seq fun _ => pure_paired _
  refine hargs.seq fun args => (lift_paired fun _ => integer_inStep _ _).seq fun n => ?_
  split
  · exact (lift_paired fun hR => give_inStep hR _).seq fun _ => Paired.pure fun _ _ h => h
  · refine (lift_paired fun _ => predecessor_inStep n).seq fun m =>
      (Body.setIndex_paired (ho.numbers 1)).seq fun _ => Body.scratch_paired.bind fun w w' => ?_
    rintro a b ⟨⟨rfl, rfl, -⟩, hab⟩
    exact (Body.load_paired _).bind
      (fun v v' => Paired.pure fun x y hxy => ⟨rfl, hxy.2, _, hxy.1⟩) a b hab

theorem recurseEnd_paired (ho : o.heard) :
    Paired (Apart o) (Twin o K f) (recurseEnd : Body F S Unit) recurseEnd
      fun u v a b => u = v ∧ Twin o K f a b :=
  Twin.lift_paired fun hR hears _ _ => (result_inStep (hears ho) 0).seq fun _ =>
    (successor_inStep _).seq fun _ => give_inStep hR _

theorem runTailStep_paired (hK : ∀ i < 3, K i) :
    Paired (Apart o) (Twin o K f) (runTailStep : Body F S Unit) runTailStep
      fun u v a b => u = v ∧ Twin o K f a b := by
  refine (Body.getSlot_paired (hK 0 (by omega))).seq fun self =>
    (Body.getSlot_paired (hK 1 (by omega))).seq fun n =>
    (lift_paired fun _ => integer_inStep _ _).seq fun n =>
    (Body.getSlot_paired (hK 2 (by omega))).seq fun acc => lift_paired fun hR => ?_
  split
  · exact give_inStep hR _
  · exact (successor_inStep _).seq fun _ => (predecessor_inStep _).seq fun _ =>
      requestTailCall_inStep hR _ _

theorem runBounce_paired (hK : ∀ i < 4, K i) :
    Paired (Apart o) (Twin o K f) (runBounce : Body F S Unit) runBounce
      fun u v a b => u = v ∧ Twin o K f a b := by
  refine (Body.getSlot_paired (hK 2 (by omega))).seq fun n =>
    (lift_paired fun _ => integer_inStep _ _).seq fun n =>
    (Body.getSlot_paired (hK 0 (by omega))).seq fun self =>
    (Body.getSlot_paired (hK 1 (by omega))).seq fun other =>
    (Body.getSlot_paired (hK 3 (by omega))).seq fun acc => lift_paired fun hR => ?_
  split
  · exact give_inStep hR _
  · exact (successor_inStep _).seq fun _ => (predecessor_inStep _).seq fun _ =>
      requestTailCall_inStep hR _ _

theorem sumCount_paired (add3 : Val) (hK : K 1) :
    Paired (Apart o) (Twin o K f) (sumCount add3 : Body F S Int64) (sumCount add3)
      fun u v a b => u = v ∧ Twin o K f a b :=
  (Body.getSlot_paired hK).seq fun _ => lift_paired fun _ => integer_inStep _ _

theorem sumTurn_paired (ho : o.OneBody) (add3 : Val) (n i : Int64)
    (hK : K 2) :
    Paired (Apart o) (Twin o K f) (sumTurn add3 n i : Body F S Turn) (sumTurn add3 n i)
      (Turned o K f 3) := by
  refine (Body.getSlot_paired hK).seq fun acc => ?_
  split
  · exact (lift_paired fun hR => give_inStep hR _).seq fun _ => Paired.pure fun _ _ h => h
  · refine (Body.setSlots_paired 3 _).seq fun _ => (Body.setIndex_paired (ho.numbers 1)).seq fun _ =>
      Paired.bind Body.frame_paired fun u v => ?_
    rintro a b ⟨rfl, rfl, hab⟩
    refine Paired.bind (Body.window_paired fun i hi => .inr ?_)
      (fun w w' => Paired.pure fun x y hxy =>
        ⟨rfl, hxy.2.weaken fun _ hr => .inl hr, _, hxy.1⟩) a b hab
    simp only [List.length_cons, List.length_nil]
    omega

theorem takeSum_paired (ho : o.heard) (i : Int64) :
    Paired (Apart o) (Twin o K f) (takeSum i : Body F S Unit) (takeSum i)
      fun u v a b => u = v ∧ Twin o (fun r => K r ∨ r = 1 ∨ r = 2) f a b := by
  refine (hear_paired ho fun hears => result_inStep hears 0).seq fun sum =>
    (Body.setSlot_paired 2 sum).seq fun _ => (lift_paired fun _ => orOverflow_inStep _).seq
      fun j => Paired.mono (Body.setSlot_paired 1 _) (fun _ _ h => h) (fun _ _ h => h)
        fun _ _ _ _ h => ⟨h.1, h.2.weaken fun r hr => ?_⟩
  show (K r ∨ r = 2) ∨ r = 1
  rcases hr with h | h | h
  · exact .inl (.inl h)
  · exact .inr h
  · exact .inl (.inr h)

theorem sumEntry_paired (ho : o.heard) (add3 : Val) (index : Nat) (hK : index ≠ 0 → K 1) :
    Paired (Apart o) (Twin o K f) (sumEntry add3 index : Body F S Unit) (sumEntry add3 index)
      fun u v a b => u = v ∧ Twin o (fun r => K r ∨ r = 1 ∨ r = 2) f a b := by
  unfold sumEntry
  split
  · refine Paired.mono (Body.setSlots_paired 1 _) (fun _ _ h => h) (fun _ _ h => h)
      fun _ _ _ _ h => ⟨h.1, h.2.weaken fun r hr => hr.imp_right fun hr => ?_⟩
    simp only [List.length_cons, List.length_nil]
    omega
  · refine (hear_paired ho fun hears => result_inStep hears 0).seq fun sum =>
      (Body.getSlot_paired (hK (by omega))).seq fun v =>
      (lift_paired fun _ => integer_inStep _ _).seq fun i =>
      (Body.setSlot_paired 2 sum).seq fun _ => (lift_paired fun _ => orOverflow_inStep _).seq
        fun j => Paired.mono (Body.setSlot_paired 1 _) (fun _ _ h => h) (fun _ _ h => h)
          fun _ _ _ _ h => ⟨h.1, h.2.weaken fun r hr => ?_⟩
    show (K r ∨ r = 2) ∨ r = 1
    rcases hr with h | h | h
    · exact .inl (.inl h)
    · exact .inr h
    · exact .inl (.inr h)
  · exact Paired.throw trivial fun _ _ h => h.apart

end InStep

end Routine

end ScriptCore
