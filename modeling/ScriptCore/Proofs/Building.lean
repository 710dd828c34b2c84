import ScriptCore.Proofs.WideFrames

/-!
# Building bodies

A body is built by a sequence of calls (`Builder.Call`). Each table of the builder holds what was
added to it, in order (`constants_after`, `children_after`, `upvalues_after`); calls that come later
leave what is there, but for the targets of jumps and tests, which are patched (`code_after`), and
for flags of slots, which are set (`isReified_after`).

So the number of items added before is the place of an item in the finished body. The builder tells
this number modulo `2 ^ 16`, or modulo `2 ^ 32` for operations. A table for which that matters is
refused in the end, so what the builder has told about a finished body is right
(`indices_valid`).
-/

namespace ScriptCore

/-- An operation that may have been pointed to another place; only jumps and tests can be. -/
def Op.pointed : Option UInt32 → Op → Op
  | some dest, .jump _ => .jump dest
  | some dest, .test cond when _ => .test cond when dest
  | _, op => op

/-- What an operation was pointed to later counts. -/
theorem Op.pointed_pointed (later earlier : Option UInt32) (op : Op) :
    (op.pointed earlier).pointed later = op.pointed (later.or earlier) := by
  rcases later with _ | later <;> rcases earlier with _ | earlier <;> cases op <;> rfl

theorem Builder.retarget_eq (dest : UInt32) (op : Op) :
    Builder.retarget dest op = op.pointed (some dest) := by
  cases op <;> rfl

namespace Builder

/-! ## Calls of the builder -/

/-- A call of the builder. -/
inductive Call
  | params (n : Nat)
  | vararg
  | slots (n : Nat)
  | reify (slot : Nat)
  | capture (name : String) (source : Capture)
  | constant (v : Val)
  | child (p : Proto)
  | emit (op : Op)
  | here
  | patch (pc dest : UInt32)

namespace Call

/-- What a call makes of the builder. -/
def run : Call → Builder → Builder
  | .params n, b => b.withParams n
  | .vararg, b => b.withVararg
  | .slots n, b => b.withSlots n
  | .reify slot, b => b.reify slot
  | .capture name source, b => b.capture name source
  | .constant v, b => (b.constant v).2
  | .child p, b => (b.child p).2
  | .emit op, b => (b.emit op).2
  | .here, b => b
  | .patch pc dest, b => b.patch pc dest

/-- The constant that a call adds. -/
def constant? : Call → Option Val
  | .constant v => some v
  | _ => none

/-- The nested body that a call adds. -/
def child? : Call → Option Proto
  | .child p => some p
  | _ => none

/-- The captured variable that a call adds. -/
def upvalue? : Call → Option UpvalueDesc
  | .capture name source => some ⟨name, source⟩
  | _ => none

/-- The operation that a call adds. -/
def op? : Call → Option Op
  | .emit op => some op
  | _ => none

/-- Where a call points the operation at a place. -/
def dest? (place : Nat) : Call → Option UInt32
  | .patch pc dest => if pc.toNat = place then some dest else none
  | _ => none

end Call

/-- The builder after some calls. -/
def after (b : Builder) (calls : List Call) : Builder := calls.foldl (fun b c => c.run b) b

/-- Where the operation at a place is pointed to last. -/
def lastDest (place : Nat) : List Call → Option UInt32
  | [] => none
  | c :: rest => (lastDest place rest).or (c.dest? place)

variable (b : Builder) (calls : List Call)

@[simp] theorem after_nil : b.after [] = b := rfl

@[simp] theorem after_cons (c : Call) : b.after (c :: calls) = (c.run b).after calls := rfl

theorem after_append (before : List Call) :
    b.after (before ++ calls) = (b.after before).after calls := List.foldl_append

/-! ## What the tables hold -/

theorem constants_run (c : Call) :
    (c.run b).constants.toList = b.constants.toList ++ (c.constant?).toList := by
  cases c <;> simp [Call.run, Call.constant?, withParams, withVararg, withSlots, reify, capture,
    constant, child, emit, patch]

theorem children_run (c : Call) :
    (c.run b).children.toList = b.children.toList ++ (c.child?).toList := by
  cases c <;> simp [Call.run, Call.child?, withParams, withVararg, withSlots, reify, capture,
    constant, child, emit, patch]

theorem upvalues_run (c : Call) :
    (c.run b).upvalues.toList = b.upvalues.toList ++ (c.upvalue?).toList := by
  cases c <;> simp [Call.run, Call.upvalue?, withParams, withVararg, withSlots, reify, capture,
    constant, child, emit, patch]

theorem size_code_run (c : Call) :
    (c.run b).code.size = b.code.size + (c.op?).toList.length := by
  cases c <;> simp [Call.run, Call.op?, withParams, withVararg, withSlots, reify, capture,
    constant, child, emit, patch]

/-- A table to which every call adds at most one item holds the items of all calls, in order. -/
theorem items_after {α : Type} (items : Builder → List α) {item? : Call → Option α}
    (hrun : ∀ (b : Builder) (c : Call), items (c.run b) = items b ++ (item? c).toList) :
    items (b.after calls) = items b ++ calls.filterMap item? := by
  induction calls generalizing b with
  | nil => simp
  | cons c calls ih => cases hc : item? c <;> simp [ih, hrun, hc]

theorem constants_after :
    (b.after calls).constants.toList = b.constants.toList ++ calls.filterMap Call.constant? :=
  items_after b calls (·.constants.toList) constants_run

theorem children_after :
    (b.after calls).children.toList = b.children.toList ++ calls.filterMap Call.child? :=
  items_after b calls (·.children.toList) children_run

theorem upvalues_after :
    (b.after calls).upvalues.toList = b.upvalues.toList ++ calls.filterMap Call.upvalue? :=
  items_after b calls (·.upvalues.toList) upvalues_run

theorem size_code_after :
    (b.after calls).code.size = b.code.size + (calls.filterMap Call.op?).length := by
  induction calls generalizing b with
  | nil => simp
  | cons c calls ih =>
    rw [after_cons, ih, size_code_run]
    cases hc : c.op? <;> simp [hc]
    omega

/-- A call leaves every operation that is there, or points it elsewhere. -/
theorem code_run (c : Call) {place : Nat} (h : place < b.code.size) :
    (c.run b).code[place]? = b.code[place]?.map (Op.pointed (c.dest? place)) := by
  have hkept : ∀ code : Array Op, code[place]? = code[place]?.map (Op.pointed none) := by
    intro code
    cases code[place]? <;> rfl
  cases c with
  | patch pc dest =>
    simp only [Call.run, patch, Call.dest?, Array.getElem?_modify]
    split
    · congr 1
      funext op
      exact retarget_eq dest op
    · exact hkept _
  | emit op =>
    simp only [Call.run, emit, Array.getElem?_push_lt h, Array.getElem?_eq_getElem h]
    rfl
  | _ => exact hkept _

/-- Every operation that is there is pointed to where the last patch points it. -/
theorem code_after {place : Nat} (h : place < b.code.size) :
    (b.after calls).code[place]? = b.code[place]?.map (Op.pointed (lastDest place calls)) := by
  induction calls generalizing b with
  | nil => cases hop : b.code[place]? <;> simp [lastDest, Op.pointed, hop]
  | cons c calls ih =>
    have hsize : place < (c.run b).code.size := by
      have hrun := size_code_after b [c]
      simp only [after_cons, after_nil] at hrun
      omega
    rw [after_cons, ih _ hsize, code_run b c h, Option.map_map]
    congr 1
    funext op
    exact Op.pointed_pointed _ _ op

theorem isReified_reify (slot i : Nat) :
    (b.reify slot).proto.isReified i = (i == slot || b.proto.isReified i) := by
  simp only [reify, proto, Proto.isReified, Array.getD_eq_getD_getElem?,
    Array.getElem?_setIfInBounds]
  by_cases h : slot = i
  · subst h
    simp only [Array.size_append, Array.size_replicate, beq_self_eq_true, Bool.true_or, if_true]
    rw [if_pos (by omega)]
    rfl
  · have hne : (i == slot) = false := by simpa using fun h' => h h'.symm
    rw [if_neg h, hne, Bool.false_or]
    by_cases hi : i < b.reified.size
    · rw [Array.getElem?_append_left hi]
    · rw [Array.getElem?_append_right (by omega), Array.getElem?_replicate,
        Array.getElem?_eq_none (Nat.not_lt.1 hi)]
      split <;> rfl

/-- Flags are set by the calls that mark a slot and by no other. -/
theorem isReified_after (slot : Nat) : (b.after calls).proto.isReified slot = true ↔
    b.proto.isReified slot = true ∨ Call.reify slot ∈ calls := by
  induction calls generalizing b with
  | nil => simp
  | cons c calls ih =>
    rw [after_cons, ih, List.mem_cons]
    cases c with
    | reify i =>
      rw [Call.run, isReified_reify, Bool.or_eq_true, beq_iff_eq, Call.reify.injEq,
        or_comm (a := slot = i), or_assoc]
    | _ => simp [Call.run, proto, Proto.isReified, withParams, withVararg, withSlots, capture,
        constant, child, emit, patch]

/-! ## What the builder tells -/

/-- The number of items added before selects the item that a call adds, also modulo the number of
items that operands can name. -/
theorem selects {α : Type} {item? : Call → Option α} {before rest : List Call} {c : Call} (item : α)
    {size : Nat} (h : item? c = some item)
    (hsize : ((before ++ c :: rest).filterMap item?).length ≤ size) :
    (before.filterMap item?).length % size = (before.filterMap item?).length ∧
      ((before ++ c :: rest).filterMap item?)[(before.filterMap item?).length]? = some item := by
  rw [List.filterMap_append, List.filterMap_cons_some h] at hsize ⊢
  rw [List.length_append, List.length_cons] at hsize
  exact ⟨Nat.mod_eq_of_lt (by omega), by simp⟩

variable (name : String)

theorem constants_built :
    ((ofName name).after calls).constants.toList = calls.filterMap Call.constant? := by
  simp [constants_after, ofName]

theorem children_built :
    ((ofName name).after calls).children.toList = calls.filterMap Call.child? := by
  simp [children_after, ofName]

theorem size_code_built :
    ((ofName name).after calls).code.size = (calls.filterMap Call.op?).length := by
  simp [size_code_after, ofName]

theorem constant_index {v : Val} : (((ofName name).after calls).constant v).1.toNat =
    (calls.filterMap Call.constant?).length % addressable := by
  rw [← constants_built, Array.length_toList]
  rfl

theorem child_index {q : Proto} : (((ofName name).after calls).child q).1.toNat =
    (calls.filterMap Call.child?).length % addressable := by
  rw [← children_built, Array.length_toList]
  rfl

theorem emit_place {op : Op} : (((ofName name).after calls).emit op).1.toNat =
    (calls.filterMap Call.op?).length % twoPow 32 := by
  rw [← size_code_built]
  rfl

/-- What the builder has told about a body holds of the body. -/
structure Told (name : String) (calls : List Call) (p : Proto) : Prop where
  /-- The index of a constant is the number of constants before it, and selects it. -/
  constant : ∀ before v rest, calls = before ++ .constant v :: rest →
    let idx := (((ofName name).after before).constant v).1
    idx.toNat = (before.filterMap Call.constant?).length ∧ p.constants[idx.toNat]? = some v
  /-- So with nested bodies. -/
  child : ∀ before q rest, calls = before ++ .child q :: rest →
    let idx := (((ofName name).after before).child q).1
    idx.toNat = (before.filterMap Call.child?).length ∧ p.children[idx.toNat]? = some q
  /-- The place of an operation selects it, pointed to where the last patch since points it. -/
  emit : ∀ before op rest, calls = before ++ .emit op :: rest →
    let pc := (((ofName name).after before).emit op).1
    pc.toNat = (before.filterMap Call.op?).length ∧
      p.code[pc.toNat]? = some (op.pointed (lastDest pc.toNat rest))
  /-- The flags are those that were set. -/
  reify : ∀ slot, p.isReified slot = true ↔ Call.reify slot ∈ calls
  check : p.check = .ok ()

variable {name calls} {p : Proto}

/-- A body that is built is the one that the calls describe. -/
theorem of_build {b : Builder} (h : b.build = .ok p) :
    b.Addressable ∧ p.check = .ok () ∧ p = b.proto := by
  obtain ⟨-, -, hbuild⟩ | ⟨haddr, hcheck, hbuild⟩ | ⟨v, hbuild⟩ := b.build_cases
  · exact nomatch h.symm.trans hbuild
  · obtain rfl : p = _ := Except.ok.inj (h.symm.trans hbuild)
    exact ⟨haddr, hcheck, rfl⟩
  · exact nomatch h.symm.trans hbuild

theorem told_of_build (hops : (calls.filterMap Call.op?).length < twoPow 32)
    (h : ((ofName name).after calls).build = .ok p) : Told name calls p := by
  obtain ⟨⟨hconstants, hchildren, -⟩, hcheck, rfl⟩ := of_build h
  rw [← Array.length_toList] at hconstants hchildren
  refine ⟨?constant, ?child, ?emit, ?reify, hcheck⟩
  case constant =>
    rintro before v rest rfl
    rw [constants_built] at hconstants
    obtain ⟨hmod, hitem⟩ := selects v rfl hconstants
    intro idx
    have hidx : idx.toNat = (before.filterMap Call.constant?).length :=
      (constant_index before name).trans hmod
    rw [← constants_built _ name, Array.getElem?_toList, ← hidx] at hitem
    exact ⟨hidx, hitem⟩
  case child =>
    rintro before q rest rfl
    rw [children_built] at hchildren
    obtain ⟨hmod, hitem⟩ := selects q rfl hchildren
    intro idx
    have hidx : idx.toNat = (before.filterMap Call.child?).length :=
      (child_index before name).trans hmod
    rw [← children_built _ name, ← hidx] at hitem
    exact ⟨hidx, hitem⟩
  case emit =>
    rintro before op rest rfl
    obtain ⟨hmod, -⟩ := selects op rfl (Nat.le_of_lt hops)
    intro pc
    have hpc : pc.toNat = (before.filterMap Call.op?).length := (emit_place before name).trans hmod
    -- Only calls after this one can point the operation elsewhere.
    have hplace : ((ofName name).after before).code.size <
        (Call.run (.emit op) ((ofName name).after before)).code.size := by
      rw [size_code_run]
      exact Nat.lt_succ_self _
    rw [after_append, after_cons, hpc, ← size_code_built before name]
    refine ⟨rfl, (code_after _ rest hplace).trans ?_⟩
    simp [Call.run, Builder.emit]
  case reify =>
    intro slot
    rw [isReified_after]
    simp [ofName, proto, Proto.isReified]

/-- A table that operands cannot number is refused. -/
theorem refused_of_unaddressable
    (h : addressable < (calls.filterMap Call.constant?).length ∨
      addressable < (calls.filterMap Call.child?).length ∨
      addressable < (calls.filterMap Call.upvalue?).length) :
    ∃ v, ((ofName name).after calls).build = .error (.violation v) := by
  apply build_unaddressable
  rintro ⟨hconstants, hchildren, hupvalues⟩
  rw [← Array.length_toList] at hconstants hchildren hupvalues
  rw [constants_built] at hconstants
  rw [children_built] at hchildren
  rw [upvalues_after, List.length_append] at hupvalues
  omega

/-- **Indices of the builder.** Whatever calls are made of a builder, fewer than `2 ^ 32` of them of
operations: if a body is built in the end, it is accepted by the check, the slots marked are those
that were, and each index and place that the builder has told selects what was added then. With more
constants, nested bodies or captured variables than operands can name nothing is built. -/
theorem indices_valid (name : String) (calls : List Call) :
    ((calls.filterMap Call.op?).length < twoPow 32 →
      ∀ p, ((ofName name).after calls).build = .ok p → Told name calls p) ∧
    (addressable < (calls.filterMap Call.constant?).length ∨
      addressable < (calls.filterMap Call.child?).length ∨
      addressable < (calls.filterMap Call.upvalue?).length →
      ∃ v, ((ofName name).after calls).build = .error (.violation v)) :=
  ⟨fun hops _ => told_of_build hops, refused_of_unaddressable⟩

/-- A loop that counts: its exit is pointed to the end when the end is known. -/
def Call.loop : List Call :=
  [.slots 2, .constant (.int 1), .emit (.const 1 0), .emit (.test 0 false 0),
    .emit (.binary .add 0 0 1), .emit (.jump 1), .reify 0, .patch 1 4, .here]

theorem indices_valid_loop : ∃ p, ((ofName "loop").after Call.loop).build = .ok p ∧
    p.code.toList = [.const 1 0, .test 0 false 4, .binary .add 0 0 1, .jump 1] ∧
    Told "loop" Call.loop p :=
  ⟨_, rfl, rfl, (indices_valid "loop" Call.loop).1 (by decide) _ rfl⟩

end Builder
end ScriptCore
