import ScriptCore.Proofs.CallDepth
import ScriptCore.Proofs.Relays
import ScriptCore.Proofs.Validation

/-!
# Checks and wide frames

The check of a body answers that the body is accepted, or which contract it breaks, unless it has
to name the register behind the last one. It does so for a call at the last register, which a frame
of more than 65535 slots has, if it comes to no other defect before (`check_overflow_iff`). Building
a body and loading it add nothing to that (`Builder.build_cases`, `loadProto_cases`), and where
a body is accepted, the arguments of each of its calls start right behind the called register when
it is run. `bodies_taken_in` puts it together.
-/

namespace ScriptCore

open Machine

/-- The last register. -/
def Reg.last : Reg := 65535

theorem Reg.next?_eq_none_iff {r : Reg} : Reg.next? r = none ↔ r = Reg.last := by
  have hlt := r.toNat_lt
  have hlast : r = Reg.last ↔ r.toNat = 65535 := UInt16.toNat_inj.symm
  rw [hlast, Reg.next?, show twoPow 16 = 65536 from rfl]
  split
  · simp only [reduceCtorEq, false_iff]
    omega
  · simp only [true_iff]
    omega

namespace Proto

variable {p : Proto} {pc : Nat} {op : Op}

/-! ## Bodies whose check overflows -/

/-- The first defect of the body itself is a call at the last register, in a frame that has it. -/
structure StopsAt (p : Proto) (pc : Nat) : Prop where
  params : p.params ≤ p.slots
  wide : twoPow 16 ≤ p.slots
  call : ∃ op, p.code[pc]? = some op ∧ op.Calls Reg.last
  before : ∀ i < pc, ∀ op, p.code[i]? = some op → p.checkOp i op = .ok ()

/-- The first defect of the body, or of the bodies nested in it, is a call at the last register. -/
inductive Overflows : Proto → Prop
  | self {p : Proto} {pc : Nat} (h : p.StopsAt pc) : Overflows p
  | child {p q : Proto} {before after : List Proto} (hself : p.checkSelf = .ok ())
    (hchildren : p.children = before ++ q :: after) (hbefore : ∀ r ∈ before, r.check = .ok ())
    (h : Overflows q) : Overflows p

/-- Only frames of more slots than registers can name are concerned. -/
theorem Overflows.wide (h : p.Overflows) : ∃ q, p.Nested q ∧ twoPow 16 ≤ q.slots ∧
    ∃ (pc : Nat) (op : Op), q.code[pc]? = some op ∧ op.Calls Reg.last := by
  suffices ∀ r : Proto, r.Nested p → ∃ q, r.Nested q ∧ twoPow 16 ≤ q.slots ∧
      ∃ (pc : Nat) (op : Op), q.code[pc]? = some op ∧ op.Calls Reg.last from this p .self
  induction h with
  | @self p pc h => exact fun r hr => ⟨p, hr, h.wide, pc, h.call⟩
  | @child p q before after hself hchildren hbefore h ih =>
    have hq : q ∈ p.children := by
      rw [hchildren]
      exact List.mem_append_right before List.mem_cons_self
    exact fun r hr => ih r (hr.child hq)

/-! ## Checks of operands -/

/-- Checks in sequence overflow at the first that does. -/
theorem seq_overflow_iff {x y : Except Rejection Unit} : (x >>= fun _ => y) = .error .overflow ↔
    x = .error .overflow ∨ x = .ok () ∧ y = .error .overflow := by
  cases x with
  | error e => exact ⟨.inl, fun h => h.resolve_right fun h => nomatch h.1⟩
  | ok u => exact ⟨fun h => .inr ⟨rfl, h⟩, fun h => h.elim (fun h => nomatch h) And.right⟩

theorem demand_answers (p : Proto) (pc : Nat) (ok : Bool) (defect : Defect) :
    p.demand pc ok defect ≠ .error .overflow := by
  cases ok <;> exact nofun

theorem checkReg_answers (p : Proto) (pc : Nat) (r : Reg) :
    p.checkReg pc r ≠ .error .overflow := p.demand_answers pc _ _

theorem checkConstant_answers (p : Proto) (pc : Nat) (idx : UInt16) :
    p.checkConstant pc idx ≠ .error .overflow := p.demand_answers pc _ _

theorem checkName_answers (p : Proto) (pc : Nat) (idx : UInt16) :
    p.checkName pc idx ≠ .error .overflow := p.demand_answers pc _ _

theorem checkUpvalue_answers (p : Proto) (pc : Nat) (idx : UInt16) :
    p.checkUpvalue pc idx ≠ .error .overflow := p.demand_answers pc _ _

theorem checkTarget_answers (p : Proto) (pc : Nat) (dest : UInt32) :
    p.checkTarget pc dest ≠ .error .overflow := p.demand_answers pc _ _

theorem checkSpan_answers (p : Proto) (pc base : Nat) (count : Count) :
    p.checkSpan pc base count ≠ .error .overflow := by
  cases count with
  | fixed n => simp [checkSpan, seq_overflow_iff, demand_answers]
  | «open» => exact p.demand_answers pc _ _

theorem checkCaptures_answers (p : Proto) (pc : Nat) (ds : List UpvalueDesc) :
    p.checkCaptures pc ds ≠ .error .overflow := by
  induction ds with
  | nil => exact nofun
  | cons d ds ih =>
    unfold checkCaptures
    cases d.capture with
    | slot r => simp [seq_overflow_iff, checkReg_answers, demand_answers, ih]
    | upvalue idx => simp [seq_overflow_iff, checkUpvalue_answers, ih]

/-- The span of the arguments has a first register unless the last one is called. -/
theorem checkSpanAfter_overflow_iff {r : Reg} {count : Count} :
    p.checkSpanAfter pc r count = .error .overflow ↔ r = Reg.last := by
  rw [← Reg.next?_eq_none_iff, checkSpanAfter]
  cases Reg.next? r with
  | some first => simp [checkSpan_answers]
  | none => simp

/-! ## Checks of bodies -/

/-- Only a call at the last register of a frame that has it makes a check overflow. -/
theorem checkOp_overflow_iff :
    p.checkOp pc op = .error .overflow ↔ op.Calls Reg.last ∧ twoPow 16 ≤ p.slots := by
  have hwide : Reg.last.toNat < p.slots ↔ twoPow 16 ≤ p.slots := Iff.rfl
  cases op with
  | call func args results =>
    simp only [checkOp, seq_overflow_iff, checkReg_answers, checkReg_iff,
      checkSpanAfter_overflow_iff, checkSpan_answers, Op.Calls, false_or, and_false, or_false]
    constructor
    · rintro ⟨hreg, rfl⟩
      exact ⟨rfl, hwide.1 hreg⟩
    · rintro ⟨rfl, hslots⟩
      exact ⟨hwide.2 hslots, rfl⟩
  | tailCall func args =>
    simp only [checkOp, seq_overflow_iff, checkReg_answers, checkReg_iff,
      checkSpanAfter_overflow_iff, Op.Calls, false_or]
    constructor
    · rintro ⟨hreg, rfl⟩
      exact ⟨rfl, hwide.1 hreg⟩
    · rintro ⟨rfl, hslots⟩
      exact ⟨hwide.2 hslots, rfl⟩
  | closure dst child =>
    cases hq : p.children[child.toNat]? <;>
      simp [checkOp, hq, Op.Calls, seq_overflow_iff, checkReg_answers, checkCaptures_answers,
        demand_answers]
  | _ =>
    simp [checkOp, Op.Calls, seq_overflow_iff, checkReg_answers, checkConstant_answers,
      checkName_answers, checkUpvalue_answers, checkTarget_answers, checkSpan_answers,
      demand_answers]

/-- The check of code ends at the first operation that does not pass. -/
theorem checkCode_error_iff {ops : List Op} {start : Nat} {e : Rejection} :
    p.checkCode start ops = .error e ↔ ∃ i op, ops[i]? = some op ∧
      p.checkOp (start + i) op = .error e ∧
      ∀ j < i, ∀ o, ops[j]? = some o → p.checkOp (start + j) o = .ok () := by
  induction ops generalizing start with
  | nil => simp [checkCode]
  | cons op ops ih =>
    cases hop : p.checkOp start op with
    | error e' =>
      have hcode : p.checkCode start (op :: ops) = .error e' := by rw [checkCode, hop]; rfl
      rw [hcode]
      constructor
      · rintro ⟨⟩
        exact ⟨0, op, rfl, hop, nofun⟩
      · rintro ⟨i, o, ho, herror, hbefore⟩
        cases i with
        | zero =>
          obtain rfl : op = o := Option.some.inj ho
          exact hop.symm.trans herror
        | succ i => exact nomatch hop.symm.trans (hbefore 0 (Nat.succ_pos i) op rfl)
    | ok u =>
      have hcode : p.checkCode start (op :: ops) = p.checkCode (start + 1) ops := by
        rw [checkCode, hop]
        rfl
      have hshift : ∀ i, start + 1 + i = start + (i + 1) := fun i => by omega
      rw [hcode, ih]
      constructor
      · rintro ⟨i, o, ho, herror, hbefore⟩
        refine ⟨i + 1, o, ho, hshift i ▸ herror, fun j hj o ho => ?_⟩
        cases j with
        | zero =>
          obtain rfl : op = o := Option.some.inj ho
          exact hop
        | succ j => exact hshift j ▸ hbefore j (Nat.lt_of_succ_lt_succ hj) o ho
      · rintro ⟨i, o, ho, herror, hbefore⟩
        cases i with
        | zero =>
          obtain rfl : op = o := Option.some.inj ho
          exact nomatch hop.symm.trans herror
        | succ i =>
          exact ⟨i, o, ho, (hshift i).symm ▸ herror, fun j hj o ho =>
            (hshift j).symm ▸ hbefore (j + 1) (Nat.succ_lt_succ hj) o ho⟩

theorem checkSelf_overflow_iff : p.checkSelf = .error .overflow ↔ ∃ pc, p.StopsAt pc := by
  by_cases hparams : p.slots < p.params
  · have hself : p.checkSelf = .error (.violation (.tooManyParams p.name p.params p.slots)) := by
      rw [checkSelf, if_pos hparams]
      rfl
    rw [hself]
    exact ⟨nofun, fun ⟨_, h⟩ => absurd h.params (Nat.not_le_of_lt hparams)⟩
  · have hself : p.checkSelf = p.checkCode 0 p.code.toList := by
      rw [checkSelf, if_neg hparams]
    rw [hself, checkCode_error_iff]
    simp only [Nat.zero_add, Array.getElem?_toList, checkOp_overflow_iff]
    constructor
    · rintro ⟨pc, op, hop, ⟨hcalls, hwide⟩, hbefore⟩
      exact ⟨pc, Nat.le_of_not_lt hparams, hwide, ⟨op, hop, hcalls⟩, hbefore⟩
    · rintro ⟨pc, -, hwide, ⟨op, hop, hcalls⟩, hbefore⟩
      exact ⟨pc, op, hop, ⟨hcalls, hwide⟩, hbefore⟩

theorem checkAll_of_error {q : Proto} {before after : List Proto} {e : Rejection}
    (hbefore : ∀ r ∈ before, r.check = .ok ()) (hq : q.check = .error e) :
    checkAll (before ++ q :: after) = .error e := by
  induction before with
  | nil =>
    rw [List.nil_append, checkAll, hq]
    rfl
  | cons r before ih =>
    rw [List.cons_append, checkAll, hbefore r List.mem_cons_self]
    exact ih fun r hr => hbefore r (List.mem_cons_of_mem _ hr)

mutual

/-- A check that overflows comes to such a call first. -/
theorem overflows_of_check : ∀ p : Proto, p.check = .error .overflow → p.Overflows
  | ⟨name, params, vararg, slots, reified, constants, code, children, upvalues⟩ => by
    intro h
    rw [check_eq, seq_overflow_iff] at h
    obtain h | ⟨hself, h⟩ := h
    · obtain ⟨pc, h⟩ := checkSelf_overflow_iff.1 h
      exact .self h
    · obtain ⟨before, q, after, hchildren, hbefore, hq⟩ := overflows_of_checkAll children h
      exact .child hself hchildren hbefore hq

theorem overflows_of_checkAll : ∀ ps : List Proto, checkAll ps = .error .overflow →
    ∃ before q after, ps = before ++ q :: after ∧ (∀ r ∈ before, r.check = .ok ()) ∧ q.Overflows
  | [] => nofun
  | p :: ps => by
    intro h
    rw [checkAll, seq_overflow_iff] at h
    obtain h | ⟨hp, h⟩ := h
    · exact ⟨[], p, ps, rfl, nofun, overflows_of_check p h⟩
    · obtain ⟨before, q, after, rfl, hbefore, hq⟩ := overflows_of_checkAll ps h
      exact ⟨p :: before, q, after, rfl, List.forall_mem_cons.2 ⟨hp, hbefore⟩, hq⟩

end

/-- **Overflow of a check.** The check of a body overflows exactly if the first defect that it
comes to is a call at the last register. -/
theorem check_overflow_iff : p.check = .error .overflow ↔ p.Overflows := by
  refine ⟨overflows_of_check p, fun h => ?_⟩
  induction h with
  | self h =>
    rw [check_eq, seq_overflow_iff]
    exact .inl (checkSelf_overflow_iff.2 ⟨_, h⟩)
  | child hself hchildren hbefore h ih =>
    rw [check_eq, seq_overflow_iff, hchildren]
    exact .inr ⟨hself, checkAll_of_error hbefore ih⟩

/-- Otherwise the check has an answer. -/
theorem check_answers (h : ¬ p.Overflows) :
    p.check = .ok () ∨ ∃ v, p.check = .error (.violation v) := by
  cases hcheck : p.check with
  | ok u => exact .inl rfl
  | error e =>
    cases e with
    | violation v => exact .inr ⟨v, rfl⟩
    | overflow => exact (h (check_overflow_iff.1 hcheck)).elim

theorem Nested.check {q : Proto} (h : p.Nested q) (hp : p.check = .ok ()) : q.check = .ok () := by
  induction h with
  | self => exact hp
  | child _ hr ih => exact check_children ih _ hr

end Proto

/-! ## Building and loading -/

namespace Builder

variable {b : Builder}

/-- Operands can name all items of the tables of a body. -/
def Addressable (b : Builder) : Prop :=
  b.constants.size ≤ addressable ∧ b.children.size ≤ addressable ∧ b.upvalues.size ≤ addressable

theorem build_addressable (h : b.Addressable) :
    b.build = (do b.proto.check; return b.proto) := by
  obtain ⟨hconstants, hchildren, hupvalues⟩ := h
  simp [build, Nat.not_lt.2 hconstants, Nat.not_lt.2 hchildren, Nat.not_lt.2 hupvalues]

theorem build_unaddressable (h : ¬ b.Addressable) : ∃ v, b.build = .error (.violation v) := by
  unfold build
  dsimp only
  split
  · exact ⟨_, rfl⟩
  · rename_i hfind
    simp only [List.find?_eq_none, List.mem_cons, List.not_mem_nil, or_false, forall_eq_or_imp,
      forall_eq, decide_eq_true_eq, Nat.not_lt] at hfind
    exact (h hfind).elim

/-- What building comes to. -/
theorem build_cases (b : Builder) :
    (b.Addressable ∧ b.proto.Overflows ∧ b.build = .error .overflow) ∨
      (b.Addressable ∧ b.proto.check = .ok () ∧ b.build = .ok b.proto) ∨
      ∃ v, b.build = .error (.violation v) := by
  by_cases h : b.Addressable
  · rw [build_addressable h]
    cases hcheck : b.proto.check with
    | ok u => exact .inr (.inl ⟨h, rfl, rfl⟩)
    | error e =>
      cases e with
      | violation v => exact .inr (.inr ⟨v, rfl⟩)
      | overflow => exact .inl ⟨h, Proto.check_overflow_iff.1 hcheck, rfl⟩
  · exact .inr (.inr (build_unaddressable h))

end Builder

/-- What loading comes to. -/
theorem Machine.loadProto_cases (p : Proto) (m : Machine Empty PUnit) :
    (p.Overflows ∧ loadProto p m = .error .overflow m) ∨
      (p.check = .ok () ∧ ∃ f t, loadProto p m = .ok (.fn f) t) ∨
      ∃ v, loadProto p m = .error (.fault (.contract v)) m := by
  cases hcheck : p.check with
  | ok u =>
    obtain ⟨f, t, h, -⟩ := (validation_sound hcheck).loaded m
    exact .inr (.inl ⟨rfl, f, t, h⟩)
  | error e =>
    cases e with
    | violation v =>
      have hreject : (orReject p.check : M Empty PUnit Unit) m = .error (.fault (.contract v)) m := by
        rw [hcheck]
        rfl
      exact .inr (.inr ⟨v, bind_of_error hreject⟩)
    | overflow =>
      have hreject : (orReject p.check : M Empty PUnit Unit) m = .error .overflow m := by
        rw [hcheck]
        rfl
      exact .inl ⟨Proto.check_overflow_iff.1 hcheck, bind_of_error hreject⟩

/-! ## Calls of accepted bodies -/

open Interpreter

theorem Proto.next?_of_calls {p : Proto} {pc : Nat} {op : Op} {r : Reg} (h : p.check = .ok ())
    (hop : p.code[pc]? = some op) (hr : op.Calls r) : Reg.next? r = some (r.toNat + 1) := by
  have hnext := Proto.next_of_check h hop hr
  unfold Reg.next? at hnext ⊢
  split at hnext
  · exact if_pos ‹_›
  · exact (hnext rfl).elim

section Calls

variable {p : Proto} {pc : Nat} {func : Reg} {args : Count}

/-- A call asks for the called value on a window that starts at the register behind it. -/
theorem Interpreter.call_asks (f : FnId) (s : Active Empty PUnit) {results : Count}
    (hop : p.code[pc]? = some (.call func args results))
    (hnext : Reg.next? func = some (func.toNat + 1)) :
    ∃ t, Asks f p pc (.call func args results) s
      ⟨s.frame.view.base + (func.toNat + 1),
        args.last (func.toNat + 1) s.frame.view.top - (func.toNat + 1)⟩
      (s.frame.view.get s.machine.thread.stack s.machine.heap.cells func.toNat) t := by
  obtain ⟨frame, m⟩ := s
  obtain ⟨trace, hturn⟩ := prepare_call_eq f frame m p pc args hnext results
  obtain ⟨hframe, hbase, hkept⟩ := prepare_asked hturn
  exact ⟨_, fun P => (congrFun (execute_eq P f hop) _).trans (bind_of_ok hturn), hframe, hbase,
    hkept⟩

end Calls

/-- What taking in a body comes to. -/
structure Proto.TakenIn (p : Proto) : Prop where
  /-- The check has no answer exactly if it comes to a call at the last register first. -/
  check : (p.Overflows ∧ p.check = .error .overflow) ∨
    (¬ p.Overflows ∧ (p.check = .ok () ∨ ∃ v, p.check = .error (.violation v)))
  /-- Frames of at most 65535 slots are not concerned. -/
  narrow : (∀ q, p.Nested q → q.slots < twoPow 16) → ¬ p.Overflows
  /-- A builder of the body answers if the check does. -/
  build : ∀ b : Builder, b.proto = p →
    (b.Addressable ∧ p.Overflows ∧ b.build = .error .overflow) ∨
      (b.Addressable ∧ p.check = .ok () ∧ b.build = .ok p) ∨
      ∃ v, b.build = .error (.violation v)
  /-- Loading the body answers if the check does. -/
  load : ∀ m : Machine Empty PUnit, (p.Overflows ∧ loadProto p m = .error .overflow m) ∨
    (p.check = .ok () ∧ ∃ f t, loadProto p m = .ok (.fn f) t) ∨
    ∃ v, loadProto p m = .error (.fault (.contract v)) m
  /-- If the body is accepted, a call in it, or in a body nested in it, asks for the called value
  on a window that starts at the register behind it. -/
  call : p.check = .ok () → ∀ q, p.Nested q → ∀ pc func args results,
    q.code[pc]? = some (.call func args results) → ∀ (f : FnId) (s : Active Empty PUnit), ∃ t,
    Asks f q pc (.call func args results) s
      ⟨s.frame.view.base + (func.toNat + 1),
        args.last (func.toNat + 1) s.frame.view.top - (func.toNat + 1)⟩
      (s.frame.view.get s.machine.thread.stack s.machine.heap.cells func.toNat) t
  /-- A tail call hands over the values from the register behind the called one on. -/
  tailCall : p.check = .ok () → ∀ q, p.Nested q → ∀ pc func args,
    q.code[pc]? = some (.tailCall func args) →
    ∀ (P : Perform Empty PUnit) (f : FnId) (frame : Frame) (m : Machine Empty PUnit),
    execute P f q pc (.tailCall func args) ⟨frame, m⟩ = .ok .done ⟨frame, { m with
      thread := { m.thread with
        results := .tailCall (frame.view.get m.thread.stack m.heap.cells func.toNat)
          (frame.view.values m.thread.stack m.heap.cells (func.toNat + 1)
            (args.last (func.toNat + 1) frame.view.top)) } }⟩

/-- **Taking in bodies.** Whatever a body is, it is accepted or refused for a broken contract,
unless the first defect in it is a call at the last register of a frame that has it; and where it
is accepted, the arguments of its calls start right behind the called register. -/
theorem bodies_taken_in (p : Proto) : p.TakenIn where
  check := by
    by_cases h : p.Overflows
    · exact .inl ⟨h, Proto.check_overflow_iff.2 h⟩
    · exact .inr ⟨h, Proto.check_answers h⟩
  narrow h hoverflows := by
    obtain ⟨q, hq, hwide, -⟩ := hoverflows.wide
    exact absurd (h q hq) (Nat.not_lt.2 hwide)
  build b hb := hb ▸ b.build_cases
  load := loadProto_cases p
  call hp q hq pc func args results hop f s :=
    call_asks f s hop (Proto.next?_of_calls (hq.check hp) hop rfl)
  tailCall hp q hq pc func args hop P f frame m :=
    execute_tailCall f frame m (Proto.next?_of_calls (hq.check hp) hop rfl)

/-- A call at the last register of a frame that has it, without arguments. -/
def Proto.wide : Proto :=
  { ofName "wide" with slots := 65536, code := #[.call Reg.last (.fixed 0) (.fixed 0)] }

/-- The builder of that body. -/
def Builder.wide : Builder := (((ofName "wide").withSlots 65536).emit
  (.call Reg.last (.fixed 0) (.fixed 0))).2

/-- The call at the last register would fit: its span starts, and ends, at the end of the frame.
It is neither accepted nor refused. -/
theorem wide_unanswered : Proto.wide.checkSpan 0 (Reg.last.toNat + 1) (.fixed 0) = .ok () ∧
    Proto.wide.check = .error .overflow ∧ Builder.wide.build = .error .overflow ∧
    loadProto Proto.wide = (throw .overflow : M Empty PUnit Val) :=
  ⟨rfl, rfl, rfl, rfl⟩

end ScriptCore
