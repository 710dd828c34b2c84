import ScriptCore.Proofs.InStep

/-!
# Look-ups and operators up to their call

A look-up or an operator either has a result of its own or ends in one call of a handler. The
plan of the operation finds out which, and calls nothing. So the operation is its plan and then
at most one request (`index_eq`, `newIndex_eq`, `arith_eq`, `unary_eq`).
-/

namespace ScriptCore

/-! ## Faults of operators -/

/-- A fault that protected calls catch and that operations raise by themselves. -/
def Fault.Ordinary : Fault → Prop
  | .contract _ | .stackOverflow _ => False
  | _ => True

namespace Fault.Ordinary

variable {f : Fault}

theorem isCatchable (h : f.Ordinary) : f.isCatchable := by
  cases f with
  | contract => exact h.elim
  | _ => rfl

theorem own (h : f.Ordinary) : (Unwind.fault f).Own := by
  cases f with
  | stackOverflow => exact h.elim
  | _ => exact trivial

end Fault.Ordinary

theorem bitwise_ordinary {f : Int64 → Int64 → Int64} {lhs rhs : Val} {c : Fault}
    (h : bitwise f lhs rhs = .error c) : c.Ordinary := by
  unfold bitwise at h
  split at h
  · split at h <;> cases h
    trivial
  · cases h

theorem BinOp.apply_ordinary {op : BinOp} {lhs rhs : Val} {c : Fault}
    (h : op.apply lhs rhs = .error c) : c.Ordinary := by
  cases op with
  | band | bor | bxor | shl | shr => exact bitwise_ordinary h
  | mod | idiv =>
    unfold apply at h
    dsimp only at h
    split at h
    · split at h <;> cases h
      trivial
    · cases h
  | _ => cases h

theorem BinOp.missing_ordinary {op : BinOp} {lhs rhs : Val} {c : Fault}
    (h : op.missing lhs rhs = .error c) : c.Ordinary := by
  cases op <;> cases h <;> trivial

theorem UnOp.apply_ordinary {op : UnOp} {v : Val} {c : Fault} (h : op.apply v = .error c) :
    c.Ordinary := by
  unfold apply at h
  split at h <;> try cases h
  split at h <;> try cases h
  split at h <;> cases h
  trivial

theorem UnOp.missing_ordinary {op : UnOp} {border : TableId → Nat} {v : Val} {c : Fault}
    (h : op.missing border v = .error c) : c.Ordinary := by
  unfold missing at h
  split at h <;> cases h <;> trivial

/-! ## Plans -/

/-- What an operation on values comes to. -/
inductive Intent
  | value (v : Val)
  /-- A handler is to be called. -/
  | ask (handler : Val) (args : List Val)

namespace Machine

variable {F S : Type}

/-- The plan of `object[key]`; at most `limit` handlers are followed. -/
def planIndexWithin (current key : Val) (limit : Nat) : M F S Intent := do
  match ← probe .index current key with
  | .entry _ v => return .value v
  | .handler h =>
    match limit with
    | 0 => fail (chainFault .index)
    | limit + 1 =>
      record fun _ => .lookupHandler .index current.kind key.kind
      if h.isFunction then return .ask h [current, key]
      else planIndexWithin h key limit
termination_by structural limit

/-- The plan of `object[key]`. -/
def planIndex (object key : Val) : M F S Intent := do
  planIndexWithin object key (← config).maxMetaChain

/-- The plan of `object[key] = value`; a value of the plan means nothing. -/
def planNewIndexWithin (current key value : Val) (limit : Nat) : M F S Intent := do
  match ← probe .newIndex current key with
  | .entry t _ =>
    setTable t key value
    return .value .nil
  | .handler h =>
    match limit with
    | 0 => fail (chainFault .newIndex)
    | limit + 1 =>
      record fun _ => .lookupHandler .newIndex current.kind key.kind
      if h.isFunction then return .ask h [current, key, value]
      else planNewIndexWithin h key value limit
termination_by structural limit

/-- The plan of `object[key] = value`. -/
def planNewIndex (object key value : Val) : M F S Intent := do
  planNewIndexWithin object key value (← config).maxMetaChain

/-- The plan of a binary operator. -/
def planArith (op : BinOp) (lhs rhs : Val) : M F S Intent := do
  match ← orFail (op.apply lhs rhs) with
  | some v => return .value v
  | none =>
    match ← handlerOf op.event lhs rhs with
    | none => return .value (← orFail (op.missing lhs rhs))
    | some h =>
      record fun _ => .binaryHandler op.event lhs.kind rhs.kind
      return .ask h [lhs, rhs]

/-- The plan of a unary operator. -/
def planUnary (op : UnOp) (v : Val) : M F S Intent := do
  match ← orFail (op.apply v) with
  | some v => return .value v
  | none =>
    let handler ← match op.event? with
      | some event => metamethod v event
      | none => pure none
    match handler with
    | none =>
      let m ← get
      return .value (← orFail (op.missing (fun t => (m.heap.table t).len) v))
    | some h =>
      record fun _ => .unaryHandler op v.kind
      return .ask h [v, v]

/-! ## An operation is its plan and at most one call -/

variable (P : Perform F S) (scratch : View)

/-- The value that a plan leads to; `post` brings the handler's first result into form. -/
def answer (post : Val → Val) : Intent → M F S Val
  | .value v => pure v
  | .ask h args => do return post (← callMeta P scratch h args)

/-- Calls the handler of a plan, if there is one. -/
def enact : Intent → M F S Unit
  | .value _ => pure ()
  | .ask h args => callWith P scratch h args

theorem indexWithin_eq (current key : Val) (limit : Nat) :
    indexWithin P scratch current key limit = planIndexWithin current key limit >>= answer P scratch id := by
  induction limit generalizing current with
  | zero =>
    unfold indexWithin planIndexWithin
    rw [bind_assoc]
    congr 1
    funext found
    cases found with
    | entry t v => rfl
    | handler h => rfl
  | succ limit ih =>
    unfold indexWithin planIndexWithin
    rw [bind_assoc]
    congr 1
    funext found
    cases found with
    | entry t v => rfl
    | handler h =>
      dsimp only
      rw [bind_assoc]
      congr 1
      funext _
      split
      · simp [answer]
      · exact ih h

theorem index_eq (object key : Val) :
    index P scratch object key = planIndex object key >>= answer P scratch id := by
  unfold index planIndex
  rw [bind_assoc]
  simp only [indexWithin_eq]

theorem newIndexWithin_eq (current key value : Val) (limit : Nat) :
    newIndexWithin P scratch current key value limit =
      planNewIndexWithin current key value limit >>= enact P scratch := by
  induction limit generalizing current with
  | zero =>
    unfold newIndexWithin planNewIndexWithin
    rw [bind_assoc]
    congr 1
    funext found
    cases found with
    | entry t v => simp [enact]
    | handler h => rfl
  | succ limit ih =>
    unfold newIndexWithin planNewIndexWithin
    rw [bind_assoc]
    congr 1
    funext found
    cases found with
    | entry t v => simp [enact]
    | handler h =>
      dsimp only
      rw [bind_assoc]
      congr 1
      funext _
      split
      · rfl
      · exact ih h

theorem newIndex_eq (object key value : Val) :
    newIndex P scratch object key value =
      planNewIndex object key value >>= enact P scratch := by
  unfold newIndex planNewIndex
  rw [bind_assoc]
  simp only [newIndexWithin_eq]

theorem arith_eq (op : BinOp) (lhs rhs : Val) :
    arith P scratch op lhs rhs = planArith op lhs rhs >>= answer P scratch op.finish := by
  unfold arith planArith
  rw [bind_assoc]
  congr 1
  funext v?
  cases v? with
  | some v => rfl
  | none =>
    dsimp only
    rw [bind_assoc]
    congr 1
    funext h?
    cases h? with
    | none => simp [answer]
    | some h => simp [answer]

theorem unary_eq (op : UnOp) (v : Val) :
    unary P scratch op v = planUnary op v >>= answer P scratch id := by
  unfold unary planUnary
  rw [bind_assoc]
  congr 1
  funext v?
  cases v? with
  | some v => rfl
  | none =>
    dsimp only
    have hrest : ∀ h? : Option Val,
        (match h? with
          | none => do
            let m ← get
            orFail (op.missing (fun t => (m.heap.table t).len) v)
          | some h => do
            record fun _ => .unaryHandler op v.kind
            callMeta P scratch h [v, v] : M F S Val) =
        (match h? with
          | none => do
            let m ← get
            return .value (← orFail (op.missing (fun t => (m.heap.table t).len) v))
          | some h => do
            record fun _ => .unaryHandler op v.kind
            return .ask h [v, v] : M F S Intent) >>= answer P scratch id := by
      intro h?
      cases h? with
      | none => simp [answer]
      | some h => simp [answer]
    cases op.event? with
    | none => exact hrest none
    | some event =>
      dsimp only
      rw [bind_assoc]
      congr 1
      funext h?
      exact hrest h?

/-! ## Plans run in step -/

section InStep

variable [HostFunction F] {R : Machine F S → Machine F S → Prop} (hR : Closed R)

include hR

theorem probe_inStep (event : Event) (current key : Val) :
    InStep R Eq (probe event current key : M F S Found) (probe event current key) := by
  unfold probe
  split
  · refine (tableAt_inStep hR _).seq fun table => ?_
    dsimp only
    split
    · refine (metamethod_inStep hR _ _).seq fun h? => ?_
      split <;> exact .pure rfl
    · exact .pure rfl
  · refine (metamethod_inStep hR _ _).seq fun h? => ?_
    split
    · exact .pure rfl
    · exact fail_inStep _ trivial

theorem planIndexWithin_inStep (current key : Val) (limit : Nat) :
    InStep R Eq (planIndexWithin current key limit : M F S Intent)
      (planIndexWithin current key limit) := by
  induction limit generalizing current with
  | zero =>
    unfold planIndexWithin
    refine (probe_inStep hR _ _ _).seq fun found => ?_
    cases found with
    | entry t v => exact .pure rfl
    | handler h => exact fail_inStep _ trivial
  | succ limit ih =>
    unfold planIndexWithin
    refine (probe_inStep hR _ _ _).seq fun found => ?_
    cases found with
    | entry t v => exact .pure rfl
    | handler h =>
      refine (record_inStep hR _ _).seq fun _ => ?_
      split
      · exact .pure rfl
      · exact ih h

theorem planIndex_inStep (object key : Val) :
    InStep R Eq (planIndex object key : M F S Intent) (planIndex object key) :=
  (config_inStep hR).bind fun c d h => by
    rw [h.chain]
    exact planIndexWithin_inStep hR _ _ _

theorem planNewIndexWithin_inStep (current key value : Val) (limit : Nat) :
    InStep R Eq (planNewIndexWithin current key value limit : M F S Intent)
      (planNewIndexWithin current key value limit) := by
  induction limit generalizing current with
  | zero =>
    unfold planNewIndexWithin
    refine (probe_inStep hR _ _ _).seq fun found => ?_
    cases found with
    | entry t v => exact (setTable_inStep hR _ _ _).seq fun _ => .pure rfl
    | handler h => exact fail_inStep _ trivial
  | succ limit ih =>
    unfold planNewIndexWithin
    refine (probe_inStep hR _ _ _).seq fun found => ?_
    cases found with
    | entry t v => exact (setTable_inStep hR _ _ _).seq fun _ => .pure rfl
    | handler h =>
      refine (record_inStep hR _ _).seq fun _ => ?_
      split
      · exact .pure rfl
      · exact ih h

theorem planNewIndex_inStep (object key value : Val) :
    InStep R Eq (planNewIndex object key value : M F S Intent) (planNewIndex object key value) :=
  (config_inStep hR).bind fun c d h => by
    rw [h.chain]
    exact planNewIndexWithin_inStep hR _ _ _ _

theorem handlerOf_inStep (event : Event) (lhs rhs : Val) :
    InStep R Eq (handlerOf event lhs rhs : M F S (Option Val)) (handlerOf event lhs rhs) := by
  refine (metamethod_inStep hR _ _).seq fun h? => ?_
  split
  · exact .pure rfl
  · exact metamethod_inStep hR _ _

theorem planArith_inStep (op : BinOp) (lhs rhs : Val) :
    InStep R Eq (planArith op lhs rhs : M F S Intent) (planArith op lhs rhs) := by
  refine (orFail_inStep fun _ h => (BinOp.apply_ordinary h).own).seq fun v? => ?_
  cases v? with
  | some v => exact .pure rfl
  | none =>
    refine (handlerOf_inStep hR _ _ _).seq fun h? => ?_
    cases h? with
    | none => exact (orFail_inStep fun _ h => (BinOp.missing_ordinary h).own).seq fun _ => .pure rfl
    | some h => exact (record_inStep hR _ _).seq fun _ => .pure rfl

theorem planUnary_inStep (op : UnOp) (v : Val) :
    InStep R Eq (planUnary op v : M F S Intent) (planUnary op v) := by
  refine (orFail_inStep fun _ h => (UnOp.apply_ordinary h).own).seq fun v? => ?_
  cases v? with
  | some v => exact .pure rfl
  | none =>
    have hrest : ∀ h? : Option Val, InStep R Eq
        (match h? with
          | none => do
            let m ← get
            return .value (← orFail (op.missing (fun t => (m.heap.table t).len) v))
          | some h => do
            record fun _ => .unaryHandler op v.kind
            return .ask h [v, v] : M F S Intent)
        (match h? with
          | none => do
            let m ← get
            return .value (← orFail (op.missing (fun t => (m.heap.table t).len) v))
          | some h => do
            record fun _ => .unaryHandler op v.kind
            return .ask h [v, v]) := by
      intro h?
      cases h? with
      | none =>
        refine (get_inStep hR).bind fun a b hc => ?_
        simp only [hc.table_eq]
        exact (orFail_inStep fun _ h => (UnOp.missing_ordinary h).own).seq fun _ => .pure rfl
      | some h => exact (record_inStep hR _ _).seq fun _ => .pure rfl
    dsimp only
    split
    · exact (metamethod_inStep hR _ _).seq hrest
    · exact (InStep.pure rfl).seq hrest

end InStep

end Machine

end ScriptCore
