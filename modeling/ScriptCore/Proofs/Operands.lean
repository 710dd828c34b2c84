import ScriptCore.Proofs.Leftovers

/-!
# Operands of checked bodies

What an operation names: registers, spans of registers, items of the tables of its body, and
places in the code. The check of a body accepts an operation only if all of it is there
(`Proto.fits_of_check`).
-/

namespace ScriptCore

namespace Op

/-- The registers that an operation names one by one. -/
def registers : Op → List Reg
  | .nil r | .bool r _ | .const r _ | .getUpval r _ | .setUpval _ r | .closure r _ | .newTable r
  | .append r _ _ _ | .getGlobal r _ | .setGlobal _ r | .test r _ _ | .call r _ _
  | .tailCall r _ => [r]
  | .move r s | .varInit r s | .varStore r s | .unary _ r s => [r, s]
  | .index r s t | .newIndex r s t | .binary _ r s t => [r, s, t]
  | .jump _ | .ret .. | .vararg .. => []

/-- The spans that an operation names, each with its first register. -/
def spans : Op → List (Nat × Count)
  | .append _ base count _ | .ret base count | .vararg base count => [(base.toNat, count)]
  | .call func args results => [(func.toNat + 1, args), (func.toNat, results)]
  | .tailCall func args => [(func.toNat + 1, args)]
  | _ => []

/-- The constant that an operation loads. -/
def constant? : Op → Option Nat
  | .const _ idx => some idx.toNat
  | _ => none

/-- The constant that is the name of the global of an operation. -/
def global? : Op → Option Nat
  | .getGlobal _ name | .setGlobal name _ => some name.toNat
  | _ => none

/-- The captured variable that an operation reads or writes. -/
def upvalue? : Op → Option Nat
  | .getUpval _ idx | .setUpval idx _ => some idx.toNat
  | _ => none

/-- The nested body that an operation makes a closure of. -/
def child? : Op → Option Nat
  | .closure _ child => some child.toNat
  | _ => none

end Op

namespace Proto

/-- A body has what a body nested in it captures. -/
def Provides (p : Proto) : Capture → Prop
  | .slot r => r.toNat < p.slots ∧ p.isReified r.toNat
  | .upvalue idx => idx.toNat < p.upvalues.length

end Proto

/-- What an operation names is there. A span may be empty, and then it starts at most at the end
of the frame. -/
structure Op.Fits (op : Op) (p : Proto) : Prop where
  registers : ∀ r ∈ op.registers, r.toNat < p.slots
  spans : ∀ base count, (base, count) ∈ op.spans →
    base ≤ p.slots ∧ ∀ n, count = .fixed n → ∀ r, base ≤ r → r < base + n.toNat → r < p.slots
  constant : ∀ i, op.constant? = some i → i < p.constants.size
  global : ∀ i, op.global? = some i → ∃ name, p.constants[i]? = some (.str name)
  upvalue : ∀ i, op.upvalue? = some i → i < p.upvalues.length
  child : ∀ i, op.child? = some i →
    ∃ q, p.children[i]? = some q ∧ ∀ d ∈ q.upvalues, p.Provides d.capture
  target : ∀ dest, op.JumpsTo dest → dest ≤ p.code.size

namespace Proto

variable {p : Proto} {pc : Nat} {op : Op}

/-! ## Checks of one operand -/

theorem check_seq_iff {x y : Except Rejection Unit} :
    (x >>= fun _ => y) = .ok () ↔ x = .ok () ∧ y = .ok () :=
  ⟨check_seq, fun ⟨hx, hy⟩ => by rw [hx]; exact hy⟩

theorem demand_iff {ok : Bool} {defect : Defect} : p.demand pc ok defect = .ok () ↔ ok := by
  cases ok <;> simp [demand]

theorem checkReg_iff {r : Reg} : p.checkReg pc r = .ok () ↔ r.toNat < p.slots := by
  simp [checkReg, demand_iff]

theorem checkConstant_iff {idx : UInt16} :
    p.checkConstant pc idx = .ok () ↔ idx.toNat < p.constants.size := by
  simp [checkConstant, demand_iff]

theorem checkName_iff {idx : UInt16} :
    p.checkName pc idx = .ok () ↔ ∃ name, p.constants[idx.toNat]? = some (.str name) := by
  have hstring : ∀ v : Val, v.toString?.isSome ↔ ∃ name, v = .str name := by
    intro v
    cases v <;> simp [Val.toString?]
  simp only [checkName, demand_iff]
  cases p.constants[idx.toNat]? with
  | none => simp
  | some v => simpa using hstring v

theorem checkUpvalue_iff {idx : UInt16} :
    p.checkUpvalue pc idx = .ok () ↔ idx.toNat < p.upvalues.length := by
  simp [checkUpvalue, demand_iff]

theorem checkTarget_iff {dest : UInt32} :
    p.checkTarget pc dest = .ok () ↔ dest.toNat ≤ p.code.size := by
  simp [checkTarget, demand_iff]

theorem checkSpan_iff {base : Nat} {count : Count} : p.checkSpan pc base count = .ok () ↔
    base ≤ p.slots ∧ ∀ n, count = .fixed n → base + n.toNat ≤ p.slots := by
  cases count with
  | fixed n => simp [checkSpan, check_seq_iff, demand_iff, and_comm]
  | «open» => simp [checkSpan, demand_iff]

theorem checkCaptures_iff {ds : List UpvalueDesc} :
    p.checkCaptures pc ds = .ok () ↔ ∀ d ∈ ds, p.Provides d.capture := by
  induction ds with
  | nil => simp [checkCaptures]
  | cons d ds ih =>
    unfold checkCaptures
    cases hd : d.capture with
    | slot r => simp [check_seq_iff, checkReg_iff, demand_iff, ih, hd, Provides, and_assoc]
    | upvalue idx => simp [check_seq_iff, checkUpvalue_iff, ih, hd, Provides]

/-! ## Checks of an operation -/

theorem registers_of_checkOp (h : p.checkOp pc op = .ok ()) :
    ∀ r ∈ op.registers, r.toNat < p.slots := by
  cases op <;> simp_all [checkOp, check_seq_iff, checkReg_iff, Op.registers]

theorem spans_of_checkOp (h : p.checkOp pc op = .ok ()) {base : Nat} {count : Count}
    (hspan : (base, count) ∈ op.spans) : p.checkSpan pc base count = .ok () := by
  unfold checkOp at h
  cases op with
  | append table first c _ =>
    obtain ⟨rfl, rfl⟩ := Prod.mk.inj (List.mem_singleton.1 hspan)
    exact (check_seq h).2
  | ret first c =>
    obtain ⟨rfl, rfl⟩ := Prod.mk.inj (List.mem_singleton.1 hspan)
    exact h
  | vararg dst c =>
    obtain ⟨rfl, rfl⟩ := Prod.mk.inj (List.mem_singleton.1 hspan)
    exact (check_seq h).2
  | tailCall func args =>
    obtain ⟨rfl, rfl⟩ := Prod.mk.inj (List.mem_singleton.1 hspan)
    exact checkSpanAfter_ok (check_seq h).2
  | call func args results =>
    obtain ⟨-, h⟩ := check_seq h
    rcases List.mem_cons.1 hspan with hargs | hresults
    · obtain ⟨rfl, rfl⟩ := Prod.mk.inj hargs
      exact checkSpanAfter_ok (check_seq h).1
    · obtain ⟨rfl, rfl⟩ := Prod.mk.inj (List.mem_singleton.1 hresults)
      exact (check_seq h).2
  | _ => cases hspan

theorem child_of_checkOp (h : p.checkOp pc op = .ok ()) {i : Nat} (hi : op.child? = some i) :
    ∃ q, p.children[i]? = some q ∧ ∀ d ∈ q.upvalues, p.Provides d.capture := by
  cases op with
  | closure dst child =>
    obtain rfl := Option.some.inj hi
    have hchild := (check_seq h).2
    cases hq : p.children[child.toNat]? with
    | none => simp [hq, demand_iff] at hchild
    | some q =>
      rw [hq] at hchild
      exact ⟨q, rfl, checkCaptures_iff.1 hchild⟩
  | _ => cases hi

theorem target_of_checkOp (h : p.checkOp pc op = .ok ()) {dest : Nat} (hdest : op.JumpsTo dest) :
    dest ≤ p.code.size := by
  cases op with
  | jump => exact hdest ▸ checkTarget_iff.1 h
  | test => exact hdest ▸ checkTarget_iff.1 (check_seq h).2
  | _ => exact hdest.elim

/-- **Operands fit.** All that an operation of a checked body names is there. -/
theorem fits_of_check (h : p.check = .ok ()) (hop : p.code[pc]? = some op) : op.Fits p := by
  have h := checkOp_of_check h hop
  refine ⟨registers_of_checkOp h, fun base count hspan => ?_, fun i hi => ?_, fun i hi => ?_,
    fun i hi => ?_, fun i => child_of_checkOp h, fun dest => target_of_checkOp h⟩
  · obtain ⟨hbase, hfixed⟩ := checkSpan_iff.1 (spans_of_checkOp h hspan)
    exact ⟨hbase, fun n hn r _ hr => Nat.lt_of_lt_of_le hr (hfixed n hn)⟩
  · cases op <;> simp_all [Op.constant?, checkOp, check_seq_iff, checkConstant_iff]
  · cases op <;> simp_all [Op.global?, checkOp, check_seq_iff, checkName_iff]
  · cases op <;> simp_all [Op.upvalue?, checkOp, check_seq_iff, checkUpvalue_iff]

/-- After an operation of a checked body the code goes on, or is at its end. -/
theorem next_le_size (h : p.check = .ok ()) (hop : p.code[pc]? = some op) {next : Nat}
    (hnext : op.Next pc next) : next ≤ p.code.size := by
  have hpc : pc < p.code.size := (Array.getElem?_eq_some_iff.1 hop).1
  rcases Op.next_cases hnext with rfl | hjump
  · exact hpc
  · exact (fits_of_check h hop).target next hjump

/-! ## Nested bodies -/

theorem checkAll_iff {ps : List Proto} : checkAll ps = .ok () ↔ ∀ q ∈ ps, q.check = .ok () := by
  induction ps with
  | nil => simp [checkAll]
  | cons q ps ih => simp [checkAll, check_seq_iff, ih]

theorem check_children (h : p.check = .ok ()) : ∀ q ∈ p.children, q.check = .ok () := by
  rw [check_eq] at h
  exact checkAll_iff.1 (check_seq h).2

end Proto

end ScriptCore
