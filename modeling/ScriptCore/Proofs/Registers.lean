import ScriptCore.Proofs.Twin

/-!
# What operations read and write

`Op.Reads` and `Op.Writes` are the registers that an operation reads and writes; a span of open
length reaches up to the live top. Two activations that agree on what an operation reads prepare
it alike (`prepare_paired`) and complete it alike (`complete_paired`), and then agree also on what
it wrote.
-/

namespace ScriptCore

/-- The registers of a span with `top` live slots. -/
def Count.Covers (c : Count) (base top r : Nat) : Prop :=
  match c with
  | .fixed n => base ≤ r ∧ r < base + n.toNat
  | .open => base ≤ r ∧ r < top

/-- The registers that a nested body captures. -/
def Proto.Captures (p : Proto) (r : Nat) : Prop :=
  ∃ d ∈ p.upvalues, ∃ s, d.capture = .slot s ∧ r = s.toNat

namespace Op

/-- The registers that an operation of a body reads while `top` slots are live. -/
def Reads (op : Op) (proto : Proto) (top r : Nat) : Prop :=
  match op with
  | .nil _ | .bool .. | .const .. | .getUpval .. | .newTable _ | .getGlobal .. | .jump _
  | .vararg .. => False
  | .move _ src | .varInit _ src | .setUpval _ src | .setGlobal _ src | .unary _ _ src
  | .test src _ _ => r = src.toNat
  | .varStore var src => r = var.toNat ∨ r = src.toNat
  | .closure _ child => ∃ q, proto.children[child.toNat]? = some q ∧ q.Captures r
  | .append table base count _ => r = table.toNat ∨ count.Covers base.toNat top r
  | .index _ object key => r = object.toNat ∨ r = key.toNat
  | .newIndex object key value => r = object.toNat ∨ r = key.toNat ∨ r = value.toNat
  | .binary _ _ lhs rhs => r = lhs.toNat ∨ r = rhs.toNat
  | .call func args _ | .tailCall func args =>
    r = func.toNat ∨ args.Covers (func.toNat + 1) top r
  | .ret base count => count.Covers base.toNat top r

/-- The registers that an operation writes and after which `top` slots are live. -/
def Writes (op : Op) (top r : Nat) : Prop :=
  match op with
  | .nil dst | .bool dst _ | .const dst _ | .move dst _ | .varInit dst _ | .varStore dst _
  | .getUpval dst _ | .closure dst _ | .newTable dst | .getGlobal dst _ | .index dst _ _
  | .binary _ dst _ _ | .unary _ dst _ => r = dst.toNat
  | .call func _ results => results.Covers func.toNat top r
  | .vararg dst count => count.Covers dst.toNat top r
  | .setUpval .. | .append .. | .setGlobal .. | .newIndex .. | .jump _ | .test .. | .tailCall ..
  | .ret .. => False

/-- Where a body can go on after the operation at `pc`. -/
def Next (op : Op) (pc p : Nat) : Prop :=
  match op with
  | .jump dest => p = dest.toNat
  | .test _ _ dest => p = dest.toNat ∨ p = pc + 1
  | .tailCall .. | .ret .. => False
  | _ => p = pc + 1

/-- The operation can jump to `pc`. -/
def JumpsTo (op : Op) (pc : Nat) : Prop :=
  match op with
  | .jump dest | .test _ _ dest => pc = dest.toNat
  | _ => False

theorem next_cases {op : Op} {pc p : Nat} (h : op.Next pc p) : p = pc + 1 ∨ op.JumpsTo p := by
  cases op with
  | jump dest => exact .inr h
  | test cond when dest => exact h.elim .inr .inl
  | tailCall | ret => exact h.elim
  | _ => exact .inl h

/-- Whether the operation leaves a span of open length behind, and so sets the live top. -/
def Opens : Op → Prop
  | .call _ _ .open | .vararg _ .open => True
  | _ => False

/-- The first register that the window of the operation's call covers. -/
def windowAt (op : Op) (slots : Nat) : Nat :=
  match op with
  | .call func _ _ => func.toNat + 1
  | _ => slots

/-- Behind an operation with a call a body goes on with the next one. -/
theorem next_of_maySuspend {op : Op} (h : op.maySuspend) (pc : Nat) : op.Next pc (pc + 1) := by
  cases op with
  | getGlobal | setGlobal | index | newIndex | binary | unary | call => rfl
  | _ => cases h

end Op

open Machine

variable {F S α : Type} [HostFunction F] {o : Origin F S} {K : Nat → Prop} {f : Frame}

/-- The bodies nested in two bodies are declared alike, and closures over them are in scope. -/
def Scope.Nests (scope : Scope F) (p q : Proto) : Prop :=
  ∀ i : Nat, Option.Rel (fun c d => c.Alike d ∧ ∀ cells, scope.admits (.closure c cells)
    (.closure d cells)) p.children[i]? q.children[i]?

omit [HostFunction F] in
/-- A body that is the same on both sides. -/
theorem Scope.nests_self {scope : Scope F} {p : Proto}
    (h : ∀ c ∈ p.children, ∀ cells, scope.admits (.closure c cells) (.closure c cells)) :
    scope.Nests p p := fun i => by
  cases hc : p.children[i]? with
  | none => exact .none
  | some c => exact .some ⟨.refl c, h c (List.mem_of_getElem? hc)⟩

/-- The operation `op'` at `pc'` is a form of `op` at `pc`: jumps lead where the segments are
renumbered to. -/
inductive Op.Renumbered (renumber : Nat → Nat) (pc pc' : Nat) : Op → Op → Prop
  | jump {dest dest' : UInt32} (h : dest'.toNat + 1 = renumber (dest.toNat + 1)) :
    Renumbered renumber pc pc' (.jump dest) (.jump dest')
  | test (cond : Reg) (when : Bool) {dest dest' : UInt32}
    (h : dest'.toNat + 1 = renumber (dest.toNat + 1)) :
    Renumbered renumber pc pc' (.test cond when dest) (.test cond when dest')
  | same {op : Op} (hjump : ∀ dest, ¬ op.JumpsTo dest)
    (happend : ∀ table base count first, op = .append table base count first → pc' = pc) :
    Renumbered renumber pc pc' op op

/-- The operation `op'` at `pc'` of the right body does what `op` at `pc` of the left one does. -/
structure Corresponds (o : Origin F S) (p q : Proto) (pc pc' : Nat) (op op' : Op) : Prop where
  name : p.name = q.name
  constants : p.constants = q.constants
  nests : o.scope.Nests p q
  form : op.Renumbered o.renumber pc pc' op'
  here : pc' + 1 = o.renumber (pc + 1)
  behind : op.Next pc (pc + 1) → pc' + 2 = o.renumber (pc + 2)
  cells : ∀ var src, op = .varInit var src → ¬ o.bare var.toNat

omit [HostFunction F] in
/-- Every operation corresponds to itself. -/
theorem Corresponds.refl (ho : o.OneBody) {p : Proto} (hnests : o.scope.Nests p p) (pc : Nat)
    (op : Op) : Corresponds o p p pc pc op op where
  name := rfl
  constants := rfl
  nests := hnests
  form := by
    cases op with
    | jump dest => exact .jump (ho.numbers _).symm
    | test cond when dest => exact .test cond when (ho.numbers _).symm
    | _ => exact .same (fun _ => id) fun _ _ _ _ _ => rfl
  here := (ho.numbers _).symm
  behind _ := (ho.numbers _).symm
  cells _ _ _ := ho.bare _

/-- Two activations after an operation that started with the registers `K`. The span that an
operation leaves behind holds values. -/
def Advanced (o : Origin F S) (K : Nat → Prop) (f : Frame) (op : Op) (x y : Active F S) : Prop :=
  ∃ g : Frame, g.slots = f.slots ∧ g.varargs = f.varargs ∧
    (op.Opens ∨ g.view.top = f.view.top) ∧
    (op.Opens → ∀ r, op.Writes g.view.top r →
      ∃ v, x.machine.thread.stack.slot (o.leftBase + r) = .value v) ∧
    Twin o (fun r => K r ∨ op.Writes g.view.top r) g x y

/-- Two activations after an operation that leaves no span of open length. -/
theorem Twin.advanced {op : Op} {g : Frame} {x y : Active F S} {L : Nat → Prop}
    (h : Twin o L g x y) (hs : g.slots = f.slots) (hv : g.varargs = f.varargs)
    (ht : ¬ op.Opens ∧ g.view.top = f.view.top) (hL : ∀ r, K r ∨ op.Writes g.view.top r → L r) :
    Advanced o K f op x y := ⟨g, hs, hv, .inr ht.2, fun hopens => (ht.1 hopens).elim, h.weaken hL⟩

namespace Interpreter

/-- Where two activations stand after the preparation of the operation at `pc`. -/
def Prepared (o : Origin F S) (K : Nat → Prop) (f : Frame) (pc : Nat) (op : Op) :
    Turn → Turn → Active F S → Active F S → Prop
  | .goto p, .goto q, x, y => q + 1 = o.renumber (p + 1) ∧ op.Next pc p ∧ Advanced o K f op x y
  | .done, .done, x, y => Twin o K f x y ∧ x.machine.thread.results = y.machine.thread.results ∧
    ((∀ func args, op ≠ .tailCall func args) → x.machine.thread.results.Settled)
  | .ask w t, .ask w' t', x, y =>
    t = t' ∧ op.maySuspend ∧ Twin o K { f with index := pc + 1 } x y ∧
      ∃ n, Body.Offset o (op.windowAt f.slots) n w w' x y
  | _, _, _, _ => False

/-! ## Machine steps of the interpreter -/

section Machine

variable {R : Machine F S → Machine F S → Prop} (hR : Closed R)

omit [HostFunction F] in
/-- A captured variable is looked up by its index; the body gives its name to the fault. -/
theorem capturedCell_congr (function : FnId) {p q : Proto} (hname : p.name = q.name) (idx : Nat) :
    (capturedCell function q idx : M F S CellId) = capturedCell function p idx := by
  unfold capturedCell
  rw [hname]

omit [HostFunction F] in
theorem captureCells_congr (function : FnId) {p q c d : Proto} (hname : p.name = q.name)
    (hchild : c.name = d.name) (view : View) (ds : List UpvalueDesc) (cells : Array CellId) :
    (captureCells function q d view ds cells : M F S (Array CellId)) =
      captureCells function p c view ds cells := by
  induction ds generalizing cells with
  | nil => rfl
  | cons e ds ih =>
    unfold captureCells
    simp only [ih, capturedCell_congr function hname, hname, hchild]

include hR

theorem capturedCell_inStep (function : FnId) (proto : Proto) (idx : Nat) :
    InStep R Eq (capturedCell function proto idx : M F S CellId)
      (capturedCell function proto idx) := by
  refine (functionAt_inStep hR function).bind fun c d h => ?_
  cases h with
  | same =>
    cases c with
    | closure proto' cells =>
      dsimp only
      split
      · exact .pure rfl
      · exact violate_inStep _
    | builtin | protectedCall | wrapped | routine | host => exact violate_inStep _
  | bodies cells =>
    dsimp only
    split
    · exact .pure rfl
    · exact violate_inStep _
  | standIn => exact violate_inStep _

theorem freshCells_inStep (cells : Array CellId) (n : Nat) :
    InStep R Eq (freshCells cells n : M F S (Array CellId)) (freshCells cells n) := by
  induction n generalizing cells with
  | zero => exact .pure rfl
  | succ n ih => exact (newCell_inStep hR _).seq fun c => ih _

theorem newClosure_inStep {c d : Proto} (halike : c.Alike d) (cells : Array CellId)
    (hadmits : ∀ cells, Admits R (.closure c cells) (.closure d cells)) :
    InStep R Eq (newClosure c cells : M F S FnId) (newClosure d cells) := by
  unfold newClosure
  rw [← halike.upvalues]
  exact (freshCells_inStep hR _ _).seq fun cells => newFunction_inStep hR (hadmits cells)

/-- The captured registers hold equal slots, so the same cells are captured. -/
theorem captureCells_inStep (function : FnId) (proto child : Proto) {v w : View}
    (ds : List UpvalueDesc) (cells : Array CellId)
    (hslots : ∀ d ∈ ds, ∀ s, d.capture = .slot s → ∀ a b, R a b →
      v.slot a.thread.stack s.toNat = w.slot b.thread.stack s.toNat) :
    InStep R Eq (captureCells function proto child v ds cells : M F S (Array CellId))
      (captureCells function proto child w ds cells) := by
  induction ds generalizing cells with
  | nil => exact .pure rfl
  | cons d ds ih =>
    have hrest := fun cell => ih (cells.push cell) fun e he => hslots e (List.mem_cons_of_mem d he)
    unfold captureCells
    dsimp only
    split
    · rename_i r hr
      have hslot : InStep R Eq (slotAt v r.toNat : M F S Slot) (slotAt w r.toNat) :=
        read_inStep (hslots d List.mem_cons_self r hr)
      refine hslot.seq fun slot => ?_
      cases slot with
      | cell c => exact (InStep.pure rfl).seq hrest
      | value _ => exact (violate_inStep _).seq hrest
    · exact (capturedCell_inStep hR _ _ _).seq hrest

end Machine

/-! ## Spans -/

theorem span_paired (base : Nat) (count : Count) :
    Paired (Apart o) (Twin o K f) (span base count : Body F S (Nat × Nat)) (span base count)
      fun u v a b => u = v ∧ u.1 = base ∧
        (∀ i, base ≤ i → i < u.2 → count.Covers base f.view.top i) ∧ Twin o K f a b := by
  cases count with
  | fixed n => exact Paired.pure fun a b h => ⟨rfl, rfl, fun i h1 h2 => ⟨h1, h2⟩, h⟩
  | «open» =>
    refine Paired.bind Body.frame_paired fun u v => ?_
    rintro a b ⟨rfl, rfl, hab⟩
    refine ⟨rfl, rfl, fun i h1 h2 => ⟨h1, ?_⟩, hab⟩
    simp only [Origin.leftFrame_view] at h2
    omega

theorem spanValues_paired {base : Nat} {count : Count}
    (hK : ∀ r, count.Covers base f.view.top r → K r) :
    Paired (Apart o) (Twin o K f) (spanValues base count : Body F S (List Val))
      (spanValues base count) fun u v a b => u = v ∧ Twin o K f a b := by
  refine Paired.bind (span_paired base count) fun u v => ?_
  rintro a b ⟨rfl, rfl, hcover, hab⟩
  exact Body.slotValues_paired (fun i h1 h2 => hK i (hcover i h1 h2)) a b hab

/-! ## Operations without a call -/

section Settled

variable {function : FnId} {p q : Proto} {pc pc' : Nat} {op op' : Op} {x y : Body F S Unit}

/-- An operation that does a step and goes on behind itself. -/
theorem settled_goto (hc : Corresponds o p q pc pc' op op')
    (hx : execute (fun _ => throw .exhausted) function p pc op = (do x; return .goto (pc + 1)))
    (hy : execute (fun _ => throw .exhausted) function q pc' op' =
      (do y; return .goto (pc' + 1)))
    (hnext : op.Next pc (pc + 1))
    (h : Paired (Apart o) (Twin o K f) x y fun _ _ => Advanced o K f op) :
    Paired (Apart o) (Twin o K f) (settled function p pc op) (settled function q pc' op')
      (Prepared o K f pc op) := by
  have hleft : (settled function p pc op : Body F S Turn) = (do x; return .goto (pc + 1)) := by
    rw [settled, hx]
    simp
  have hright : (settled function q pc' op' : Body F S Turn) = (do y; return .goto (pc' + 1)) := by
    rw [settled, hy]
    simp
  rw [hleft, hright]
  exact h.bind fun _ _ => Paired.pure fun a b hab => ⟨hc.behind hnext, hnext, hab⟩

/-- An operation that does one step in any body and goes on behind itself. -/
theorem settled_goto_self (hc : Corresponds o p q pc pc' op op)
    (hx : ∀ (p : Proto) (pc : Nat), execute (fun _ => throw .exhausted) function p pc op =
      (do x; return .goto (pc + 1)))
    (hnext : op.Next pc (pc + 1))
    (h : Paired (Apart o) (Twin o K f) x x fun _ _ => Advanced o K f op) :
    Paired (Apart o) (Twin o K f) (settled function p pc op) (settled function q pc' op)
      (Prepared o K f pc op) := settled_goto hc (hx p pc) (hx q pc') hnext h

/-- A step that ends in the write of one register. -/
theorem store_advanced {dst : Reg} {x y : Body F S Val} (hopens : ¬ op.Opens)
    (hw : ∀ top r, op.Writes top r → r = dst.toNat)
    (hx : Paired (Apart o) (Twin o K f) x y fun u v a b => u = v ∧ Twin o K f a b) :
    Paired (Apart o) (Twin o K f) (do Body.setSlot dst.toNat (← x))
      (do Body.setSlot dst.toNat (← y)) fun _ _ => Advanced o K f op :=
  hx.seq fun v => Paired.mono (Body.setSlot_paired _ v) (fun _ _ h => h) (fun _ _ h => h)
    fun _ _ _ _ h => h.2.advanced rfl rfl ⟨hopens, rfl⟩ fun _ hr => hr.imp_right (hw _ _)

/-- A step that writes no register. -/
theorem advanced_of_twin (hopens : ¬ op.Opens) (hw : ∀ top r, ¬ op.Writes top r)
    {x y : Active F S} (h : Twin o K f x y) : Advanced o K f op x y :=
  h.advanced rfl rfl ⟨hopens, rfl⟩ fun _ hr => hr.resolve_right (hw _ _)

theorem pure_paired (v : α) :
    Paired (Apart o) (Twin o K f) (pure v : Body F S α) (pure v)
      fun u v a b => u = v ∧ Twin o K f a b := Paired.pure fun _ _ h => ⟨rfl, h⟩

/-- A step of the machine that runs in step with itself. -/
theorem lift_paired {x : M F S α}
    (h : ∀ {R : Machine F S → Machine F S → Prop}, Closed R → InStep R Eq x x) :
    Paired (Apart o) (Twin o K f) (Body.lift x) (Body.lift x)
      fun u v a b => u = v ∧ Twin o K f a b := Twin.lift_paired fun hR _ _ _ => h hR

/-- A step of the machine that reads the channel. -/
theorem hear_paired (ho : o.heard) {x : M F S α}
    (h : ∀ {R : Machine F S → Machine F S → Prop}, Hears R → InStep R Eq x x) :
    Paired (Apart o) (Twin o K f) (Body.lift x) (Body.lift x)
      fun u v a b => u = v ∧ Twin o K f a b := Twin.lift_paired fun _ hears _ _ => h (hears ho)

/-- A step that writes the channel. -/
theorem setChannel_paired (r : Results) :
    Paired (Apart o) (Twin o K f) (Body.lift (setChannel r)) (Body.lift (setChannel r))
      fun _ _ a b => Twin o K f a b ∧ a.machine.thread.results = r ∧
        b.machine.thread.results = r :=
  Twin.lift_keeps (Q := fun _ _ a b => a.thread.results = r ∧ b.thread.results = r)
    fun hR _ _ _ => setChannel_writes hR r

theorem makeClosure_paired (function : FnId) {idx : Nat} (hname : p.name = q.name)
    (hnests : o.scope.Nests p q)
    (hK : ∀ c, p.children[idx]? = some c → ∀ r, c.Captures r → K r) :
    Paired (Apart o) (Twin o K f) (makeClosure function p idx : Body F S Val)
      (makeClosure function q idx) fun u v a b => u = v ∧ Twin o K f a b := by
  have hchildren := hnests idx
  unfold makeClosure
  rw [← hname]
  cases hleft : p.children[idx]? <;> cases hright : q.children[idx]? <;>
    rw [hleft, hright] at hchildren
  case none.none => exact lift_paired fun _ => violate_inStep _
  case some.some child child' =>
    cases hchildren with
    | some hchild =>
      obtain ⟨halike, hscope⟩ := hchild
      refine Paired.bind Body.frame_paired fun u v => ?_
      rintro a b ⟨rfl, rfl, hab⟩
      refine Twin.lift_paired (fun hR _ hadmits hregs => ?_) a b hab
      rw [← halike.upvalues, captureCells_congr function hname halike.name]
      refine (captureCells_inStep hR _ _ _ _ _ fun d hd s hs a b h => ?_).seq fun cells =>
        (newClosure_inStep hR halike _ fun cells => hadmits _ _ (.bodies cells halike)
          (hscope cells)).seq fun _ => .pure rfl
      exact hregs a b h _ (hK child hleft _ ⟨d, hd, s, hs, rfl⟩)
  all_goals cases hchildren

/-- A slot that holds a cell is written through, on both sides or on neither. -/
theorem store_paired {r : Nat} (hr : K r) (v : Val) :
    Paired (Apart o) (Twin o K f) (Body.lift (store (o.leftFrame f).view r v))
      (Body.lift (store (o.rightFrame f).view r v))
      fun u v a b => u = v ∧ Twin o K f a b := by
  have hslot : Paired (Apart o) (Twin o K f)
      (Body.lift (slotAt (o.leftFrame f).view r))
      (Body.lift (slotAt (o.rightFrame f).view r))
      fun u v a b => u = v ∧ Twin o K f a b :=
    Twin.lift_paired fun _ _ _ hregs => read_inStep fun a b h => hregs a b h r hr
  unfold store
  rw [Body.lift_bind, Body.lift_bind]
  refine hslot.seq fun slot => ?_
  cases slot with
  | cell c => exact lift_paired fun hR => putCell_inStep hR c v
  | value _ =>
    exact Paired.mono (Body.putSlot_paired r (.value v) fun _ => ⟨v, rfl⟩) (fun _ _ h => h)
      (fun _ _ h => h) fun _ _ _ _ h => ⟨h.1, h.2.weaken fun _ hi => .inl hi⟩

theorem varInit_paired {r : Nat} (hr : ¬ o.bare r) (v : Val) :
    Paired (Apart o) (Twin o K f)
      (Body.lift do putSlot (o.leftFrame f).view r (.cell (← newCell v)))
      (Body.lift do putSlot (o.rightFrame f).view r (.cell (← newCell v)))
      fun u v a b => u = v ∧ Twin o (fun i => K i ∨ i = r) f a b := by
  rw [Body.lift_bind, Body.lift_bind]
  exact (lift_paired fun hR => newCell_inStep hR v).seq fun c =>
    Body.putSlot_paired r (.cell c) fun hbare => (hr hbare).elim

omit [HostFunction F] in
/-- Writing a span of registers puts the values there and changes no other register. -/
theorem setSlots_registers (dst : Nat) (vs : List Val) (s : Active F S) :
    ∃ t x, Body.setSlots dst vs s = .ok () ⟨s.frame, s.machine.restack t x⟩ ∧
      ∀ r, t.slot (s.frame.view.base + r) =
        if dst ≤ r ∧ r < dst + vs.length then .value (vs.getD (r - dst) .nil)
        else s.machine.thread.stack.slot (s.frame.view.base + r) := by
  induction vs generalizing dst s with
  | nil => exact ⟨_, _, rfl, fun r => (if_neg (by simp)).symm⟩
  | cons v vs ih =>
    obtain ⟨x, hx⟩ := onStack_ok (fun t => ((), s.frame.view.put t dst (.value v))) s.machine
    have hset : Body.setSlot dst v s =
        .ok () ⟨s.frame, s.machine.restack (s.frame.view.put s.machine.thread.stack dst (.value v)) x⟩ :=
      Body.lift_of_ok (x := putSlot s.frame.view dst (.value v)) hx
    obtain ⟨t, y, ht, hregs⟩ := ih (dst + 1) ⟨s.frame, s.machine.restack
      (s.frame.view.put s.machine.thread.stack dst (.value v)) x⟩
    refine ⟨t, y, (bind_of_ok hset).trans ht, fun r => (hregs r).trans ?_⟩
    dsimp only
    rw [restack_stack, View.put, Stack.slot_put, List.length_cons]
    by_cases hdst : r = dst
    · subst hdst
      rw [if_neg (by omega), if_pos rfl, if_pos (by omega), Nat.sub_self]
      rfl
    · rw [if_neg fun h => hdst (Nat.add_left_cancel h)]
      by_cases hr : dst + 1 ≤ r ∧ r < dst + 1 + vs.length
      · obtain ⟨i, rfl⟩ := Nat.exists_eq_add_of_le hr.1
        rw [if_pos hr, if_pos (by omega), Nat.add_sub_cancel_left, Nat.add_right_comm,
          Nat.add_assoc, Nat.add_sub_cancel_left]
        rfl
      · rw [if_neg hr, if_neg (by omega)]

omit [HostFunction F] in
/-- Writing a span of registers puts values there, and no cells anywhere. -/
theorem setSlots_ok (dst : Nat) (vs : List Val) (s : Active F S) :
    ∃ t x, Body.setSlots dst vs s = .ok () ⟨s.frame, s.machine.restack t x⟩ ∧
      ∀ r, (∃ v, s.machine.thread.stack.slot (s.frame.view.base + r) = .value v) ∨
        dst ≤ r ∧ r < dst + vs.length → ∃ v, t.slot (s.frame.view.base + r) = .value v := by
  obtain ⟨t, x, ht, hregs⟩ := setSlots_registers dst vs s
  refine ⟨t, x, ht, fun r hr => ?_⟩
  rw [hregs]
  split
  · exact ⟨_, rfl⟩
  · exact hr.resolve_right ‹_›

/-- The write of a span of registers, up to a new live top if its length is open. -/
theorem setSlots_open_advanced (op : Op) {dst : Nat} (vs : List Val) (hopens : op.Opens)
    (hw : ∀ top r, op.Writes top r → dst ≤ r ∧ r < top) :
    Paired (Apart o) (Twin o K f)
      (do Body.setSlots dst vs; Body.setTop (dst + vs.length) : Body F S Unit)
      (do Body.setSlots dst vs; Body.setTop (dst + vs.length)) fun _ _ => Advanced o K f op := by
  intro x y hxy
  have hpaired := (Body.setSlots_paired dst vs).seq (fun _ => Body.setTop_paired (dst + vs.length))
    x y hxy
  obtain ⟨t, tr, hset, hvalues⟩ := setSlots_ok dst vs x
  obtain ⟨tr', hleft⟩ : ∃ tr', (do Body.setSlots dst vs; Body.setTop (dst + vs.length) :
      Body F S Unit) x = .ok () ⟨{ x.frame with view := ⟨x.frame.view.base, dst + vs.length⟩ },
        x.machine.restack (x.frame.view.growTo t (dst + vs.length)) tr'⟩ :=
    ⟨_, (bind_of_ok hset).trans rfl⟩
  rw [hleft] at hpaired ⊢
  cases hright : (do Body.setSlots dst vs; Body.setTop (dst + vs.length) : Body F S Unit) y <;>
    rw [hright] at hpaired
  · obtain ⟨-, htwin⟩ := hpaired
    refine ⟨f.withTop (dst + vs.length), rfl, rfl, .inl hopens, fun _ r hr => ?_,
      htwin.weaken fun _ hr => hr.imp_right (hw _ _)⟩
    rw [restack_stack, View.slot_growTo]
    have hbase : x.frame.view.base = o.leftBase := by rw [hxy.leftFrame]; rfl
    exact hbase ▸ hvalues r (.inr (hw _ _ hr))
  · exact hpaired.elim

theorem length_padded (n : Nat) (vs : List Val) : (padded n vs).length = n := by
  simp [padded]; omega

theorem setSlots_fixed_advanced (op : Op) {dst n : Nat} (vs : List Val) (hopens : ¬ op.Opens)
    (hw : ∀ top r, op.Writes top r → dst ≤ r ∧ r < dst + n) :
    Paired (Apart o) (Twin o K f) (Body.setSlots dst (padded n vs) : Body F S Unit)
      (Body.setSlots dst (padded n vs)) fun _ _ => Advanced o K f op :=
  Paired.mono (Body.setSlots_paired dst _) (fun _ _ h => h) (fun _ _ h => h)
    fun _ _ _ _ h => h.2.advanced rfl rfl ⟨hopens, rfl⟩ fun _ hr => hr.imp_right fun hr => by
      rw [length_padded]; exact hw _ _ hr

theorem next_paired (r : Reg) :
    Paired (Apart o) (Twin o K f) (Body.lift (orOverflow (Reg.next? r)))
      (Body.lift (orOverflow (Reg.next? r)))
      fun u v a b => u = v ∧ u = r.toNat + 1 ∧ Twin o K f a b := by
  cases h : Reg.next? r with
  | none =>
    exact Paired.throw (e := .overflow) trivial fun _ _ h => h.apart
  | some n =>
    have hn : n = r.toNat + 1 := by
      rw [Reg.next?] at h
      split at h
      · exact (Option.some.inj h).symm
      · cases h
    exact Paired.pure fun _ _ h => ⟨rfl, hn, h⟩

/-- An operation that does one step in any body and ends it. -/
theorem settled_done
    (hx : ∀ (p : Proto) (pc : Nat), execute (fun _ => throw .exhausted) function p pc op =
      (do x; return .done))
    (h : Paired (Apart o) (Twin o K f) x x fun _ _ a b =>
      Twin o K f a b ∧ a.machine.thread.results = b.machine.thread.results ∧
        ((∀ func args, op ≠ .tailCall func args) → a.machine.thread.results.Settled)) :
    Paired (Apart o) (Twin o K f) (settled function p pc op) (settled function q pc' op)
      (Prepared o K f pc op) := by
  have hsettled (p : Proto) (pc : Nat) :
      (settled function p pc op : Body F S Turn) = (do x; return .done) := by
    rw [settled, hx]
    simp
  rw [hsettled, hsettled]
  exact h.bind fun _ _ => Paired.pure fun a b hab => hab

/-- A register gets a new cell. -/
theorem varInit_advanced {var src : Reg} (hbare : ¬ o.bare var.toNat) (hsrc : K src.toNat) :
    Paired (Apart o) (Twin o K f)
      (do
        let value ← Body.getSlot src.toNat
        let f ← Body.frame
        Body.lift do putSlot f.view var.toNat (.cell (← newCell value)) : Body F S Unit)
      (do
        let value ← Body.getSlot src.toNat
        let f ← Body.frame
        Body.lift do putSlot f.view var.toNat (.cell (← newCell value)))
      fun _ _ => Advanced o K f (.varInit var src) := by
  refine (Body.getSlot_paired hsrc).seq fun value => Paired.bind Body.frame_paired fun u v => ?_
  rintro a b ⟨rfl, rfl, hab⟩
  exact Paired.mono (varInit_paired hbare value) (fun _ _ h => h) (fun _ _ h => h)
    (fun _ _ _ _ h => h.2.advanced rfl rfl ⟨id, rfl⟩ fun _ hr => hr) a b hab

/-- A variable is assigned. Its register may hold a cell, so it is read as well. -/
theorem varStore_advanced {var src : Reg} (hvar : K var.toNat) (hsrc : K src.toNat) :
    Paired (Apart o) (Twin o K f)
      (do
        let value ← Body.getSlot src.toNat
        let f ← Body.frame
        Body.lift (store f.view var.toNat value) : Body F S Unit)
      (do
        let value ← Body.getSlot src.toNat
        let f ← Body.frame
        Body.lift (store f.view var.toNat value))
      fun _ _ => Advanced o K f (.varStore var src) := by
  refine (Body.getSlot_paired hsrc).seq fun value => Paired.bind Body.frame_paired fun u v => ?_
  rintro a b ⟨rfl, rfl, hab⟩
  have hadvanced : ∀ x y, Twin o K f x y → Advanced o K f (.varStore var src) x y :=
    fun x y h => h.advanced rfl rfl ⟨id, rfl⟩ fun r hr =>
      hr.elim id fun hr => by rw [hr]; exact hvar
  exact Paired.mono (store_paired hvar value) (fun _ _ h => h) (fun _ _ h => h)
    (fun _ _ x y h => hadvanced x y h.2) a b hab

/-- The values of a span are appended to a table. -/
theorem append_advanced (p : Proto) (pc : Nat) {table base : Reg} {count : Count} {first : UInt32}
    (hK : ∀ r, (Op.append table base count first).Reads p f.view.top r → K r) :
    Paired (Apart o) (Twin o K f)
      (do appendSpan p pc base count first (← Body.getSlot table.toNat) : Body F S Unit)
      (do appendSpan p pc base count first (← Body.getSlot table.toNat))
      fun _ _ => Advanced o K f (.append table base count first) := by
  refine (Body.getSlot_paired (hK _ (.inl rfl))).seq fun v => ?_
  unfold appendSpan
  split
  · exact (spanValues_paired fun r hr => hK r (.inr hr)).seq fun values =>
      Paired.mono (lift_paired fun hR => setList_inStep hR _ _ values) (fun _ _ h => h)
        (fun _ _ h => h) fun _ _ _ _ h => advanced_of_twin id (fun _ _ => id) h.2
  · exact Paired.mono (lift_paired fun _ => violate_inStep _) (fun _ _ h => h)
      (fun _ _ h => h) fun _ _ _ _ h => advanced_of_twin id (fun _ _ => id) h.2

/-- An operation that calls nothing is carried out alike by activations that agree on what it
reads. -/
theorem settled_paired (function : FnId) (hc : Corresponds o p q pc pc' op op')
    (hop : op.maySuspend = false) (hK : ∀ r, op.Reads p f.view.top r → K r) :
    Paired (Apart o) (Twin o K f) (settled function p pc op) (settled function q pc' op')
      (Prepared o K f pc op) := by
  have hform := hc.form
  have hname := hc.name
  cases hform with
  | jump hdest =>
    rename_i dest dest'
    have h : ∀ (p : Proto) (pc : Nat) (dest : UInt32),
        (settled function p pc (.jump dest) : Body F S Turn) = pure (.goto dest.toNat) :=
      fun _ _ _ => by simp [settled, execute]
    rw [h, h]
    exact Paired.pure fun _ _ h => ⟨hdest, rfl, advanced_of_twin id (fun _ _ => id) h⟩
  | test cond when hdest =>
    have h : ∀ (p : Proto) (pc : Nat) (dest : UInt32),
        (settled function p pc (.test cond when dest) : Body F S Turn) = (do
          if (← Body.getSlot cond.toNat).truthy == when then return .goto dest.toNat
          else return .goto (pc + 1)) := by
      intro p pc dest
      simp only [settled, execute, bind_assoc]
      congr 1
      funext v
      split <;> simp
    rw [h, h]
    refine (Body.getSlot_paired (hK _ rfl)).seq fun v => ?_
    split
    · exact Paired.pure fun _ _ h => ⟨hdest, .inl rfl, advanced_of_twin id (fun _ _ => id) h⟩
    · exact Paired.pure fun _ _ h =>
        ⟨hc.behind (.inr rfl), .inr rfl, advanced_of_twin id (fun _ _ => id) h⟩
  | same hjump happend =>
    cases op with
    | nil dst =>
      exact settled_goto_self (x := do Body.setSlot dst.toNat (← pure .nil)) hc (by simp [execute])
        rfl (store_advanced id (fun _ _ h => h) (pure_paired _))
    | bool dst value =>
      exact settled_goto_self (x := do Body.setSlot dst.toNat (← pure (.bool value))) hc
        (by simp [execute]) rfl (store_advanced id (fun _ _ h => h) (pure_paired _))
    | const dst idx =>
      exact settled_goto
        (x := do Body.setSlot dst.toNat (← pure (p.constants.getD idx.toNat .nil)))
        (y := do Body.setSlot dst.toNat (← pure (p.constants.getD idx.toNat .nil))) hc
        (by simp [execute]) (by simp [execute, ← hc.constants]) rfl
        (store_advanced id (fun _ _ h => h) (pure_paired _))
    | move dst src =>
      exact settled_goto_self (x := do Body.setSlot dst.toNat (← Body.getSlot src.toNat)) hc
        (by simp [execute]) rfl
        (store_advanced id (fun _ _ h => h) (Body.getSlot_paired (hK _ rfl)))
    | varInit var src =>
      exact settled_goto_self (x := do
        let value ← Body.getSlot src.toNat
        let f ← Body.frame
        Body.lift do putSlot f.view var.toNat (.cell (← newCell value))) hc (by simp [execute])
        rfl (varInit_advanced (hc.cells var src rfl) (hK _ rfl))
    | varStore var src =>
      exact settled_goto_self (x := do
        let value ← Body.getSlot src.toNat
        let f ← Body.frame
        Body.lift (store f.view var.toNat value)) hc (by simp [execute]) rfl
        (varStore_advanced (hK _ (.inl rfl)) (hK _ (.inr rfl)))
    | getUpval dst idx =>
      refine settled_goto (x := do
        Body.setSlot dst.toNat (← Body.lift do cellAt (← capturedCell function p idx.toNat)))
        (y := do
          Body.setSlot dst.toNat (← Body.lift do cellAt (← capturedCell function p idx.toNat)))
        hc (by simp [execute]) (by simp [execute, capturedCell_congr function hname]) rfl
        (store_advanced id (fun _ _ h => h) (lift_paired fun hR => ?_))
      exact (capturedCell_inStep hR _ _ _).seq fun c => cellAt_inStep hR c
    | setUpval idx src =>
      refine settled_goto (x := do
        let cell ← Body.lift (capturedCell function p idx.toNat)
        let value ← Body.getSlot src.toNat
        Body.lift (putCell cell value)) (y := do
        let cell ← Body.lift (capturedCell function p idx.toNat)
        let value ← Body.getSlot src.toNat
        Body.lift (putCell cell value)) hc (by simp [execute])
        (by simp [execute, capturedCell_congr function hname]) rfl ?_
      exact (lift_paired fun hR => capturedCell_inStep hR _ _ _).seq fun cell =>
        (Body.getSlot_paired (hK _ rfl)).seq fun value =>
          Paired.mono (lift_paired fun hR => putCell_inStep hR cell value) (fun _ _ h => h)
            (fun _ _ h => h) fun _ _ _ _ h => advanced_of_twin id (fun _ _ => id) h.2
    | closure dst child =>
      exact settled_goto
        (x := do Body.setSlot dst.toNat (← makeClosure function p child.toNat))
        (y := do Body.setSlot dst.toNat (← makeClosure function q child.toNat)) hc
        (by simp [execute]) (by simp [execute]) rfl
        (store_advanced id (fun _ _ h => h) (makeClosure_paired function hname hc.nests
          fun c hchild r hr => hK r ⟨c, hchild, hr⟩))
    | newTable dst =>
      exact settled_goto_self (x := do
        Body.setSlot dst.toNat (← (do return .table (← Body.lift newTable)))) hc
        (by simp [execute]) rfl (store_advanced id (fun _ _ h => h)
          ((lift_paired fun hR => newTable_inStep hR).seq fun _ => pure_paired _))
    | append table base count first =>
      -- An append tells its place when it fails, so it has kept its place.
      obtain rfl : pc' = pc := happend _ _ _ _ rfl
      have hspan : ∀ v, (appendSpan q pc' base count first v : Body F S Unit) =
          appendSpan p pc' base count first v := fun v => by
        unfold appendSpan
        rw [hname]
      exact settled_goto (x := do
        appendSpan p pc' base count first (← Body.getSlot table.toNat)) (y := do
        appendSpan p pc' base count first (← Body.getSlot table.toNat)) hc (by simp [execute])
        (by simp [execute, hspan]) rfl (append_advanced p pc' hK)
    | jump dest => exact (hjump _ rfl).elim
    | test cond when dest => exact (hjump _ rfl).elim
    | tailCall func args =>
      refine settled_done (x := do
        let target ← Body.getSlot func.toNat
        let values ← spanValues (← Body.lift (orOverflow (Reg.next? func))) args
        Body.lift (requestTailCall target values)) (by simp [execute]) ?_
      refine (Body.getSlot_paired (hK _ (.inl rfl))).seq fun target =>
        Paired.bind (next_paired func) fun u v => ?_
      rintro a b ⟨rfl, rfl, hab⟩
      refine (spanValues_paired fun r hr => hK r (.inr hr)).seq (fun values => ?_) a b hab
      exact Paired.mono (setChannel_paired (.tailCall target values)) (fun _ _ h => h)
        (fun _ _ h => h) fun _ _ _ _ h =>
          ⟨h.1, h.2.1.trans h.2.2.symm, fun hop => (hop func args rfl).elim⟩
    | ret base count =>
      refine settled_done (x := do
        let values ← spanValues base.toNat count
        Body.lift (giveAll values)) (by simp [execute]) ?_
      refine (spanValues_paired hK).seq fun values => ?_
      exact Paired.mono (setChannel_paired (.ofValues values)) (fun _ _ h => h)
        (fun _ _ h => h) fun _ _ _ _ h => ⟨h.1, h.2.1.trans h.2.2.symm, fun _ => h.2.1 ▸ rfl⟩
    | vararg dst count =>
      cases count with
      | fixed n =>
        refine settled_goto_self (x := do
          let f ← Body.frame
          Body.setSlots dst.toNat (padded n.toNat f.varargs)) hc (by simp [execute]) rfl ?_
        refine Paired.bind Body.frame_paired fun u v => ?_
        rintro a b ⟨rfl, rfl, hab⟩
        exact setSlots_fixed_advanced (.vararg dst (.fixed n)) f.varargs id (fun _ _ h => h) a b hab
      | «open» =>
        refine settled_goto_self (x := do
          let f ← Body.frame
          Body.setSlots dst.toNat f.varargs
          Body.setTop (dst.toNat + f.varargs.length)) hc (by simp [execute]) rfl ?_
        refine Paired.bind Body.frame_paired fun u v => ?_
        rintro a b ⟨rfl, rfl, hab⟩
        exact setSlots_open_advanced (.vararg dst .open) f.varargs trivial (fun _ _ h => h) a b hab
    | unary op dst src =>
      cases op with
      | not =>
        exact settled_goto_self (x := do
          Body.setSlot dst.toNat (← (do return .bool !(← Body.getSlot src.toNat).truthy))) hc
          (by simp [execute]) rfl (store_advanced id (fun _ _ h => h)
            ((Body.getSlot_paired (hK _ rfl)).seq fun _ => pure_paired _))
      | neg | bnot | len => cases hop
    | getGlobal | setGlobal | index | newIndex | binary | call => cases hop

end Settled

/-! ## Operations with a call -/

section Asking

variable {p q : Proto} {pc pc' : Nat} {op op' : Op}

/-- What a look-up or an operator does once it has its window. -/
theorem follow_paired (hc : Corresponds o p q pc pc' op op') (intent : Intent)
    {store : Val → Body F S Unit}
    (hstore : ∀ v, Paired (Apart o) (Twin o K { f with index := pc + 1 }) (store v) (store v)
      fun _ _ => Advanced o K f op)
    (hnext : op.Next pc (pc + 1)) (hmay : op.maySuspend) (hwindow : op.windowAt f.slots = f.slots) :
    Paired (Apart o) (Twin o K { f with index := pc + 1 })
      (follow pc ⟨o.leftBase + f.slots, 0⟩ store intent)
      (follow pc' ⟨o.rightBase + f.slots, 0⟩ store intent) (Prepared o K f pc op) := by
  cases intent with
  | value v =>
    exact (hstore v).bind fun _ _ => Paired.pure fun _ _ h => ⟨hc.behind hnext, hnext, h⟩
  | ask h args =>
    refine (Body.load_paired args).bind fun w w' => Paired.pure fun x y hxy => ?_
    exact ⟨rfl, hmay, hxy.2, args.length, by rw [hwindow]; exact hxy.1⟩

/-- A look-up or an operator: the scratch window, the intent, and what follows from it. -/
theorem ask_paired (hc : Corresponds o p q pc pc' op op') {x : M F S Intent}
    {store : Val → Body F S Unit}
    (hx : ∀ {R : Machine F S → Machine F S → Prop}, Closed R → InStep R Eq x x)
    (hstore : ∀ v, Paired (Apart o) (Twin o K { f with index := pc + 1 }) (store v) (store v)
      fun _ _ => Advanced o K f op)
    (hnext : op.Next pc (pc + 1)) (hmay : op.maySuspend) (hwindow : op.windowAt f.slots = f.slots) :
    Paired (Apart o) (Twin o K f)
      (do
        Body.setIndex (pc + 1)
        let scratch ← Body.scratch
        let intent ← Body.lift x
        follow pc scratch store intent)
      (do
        Body.setIndex (pc' + 1)
        let scratch ← Body.scratch
        let intent ← Body.lift x
        follow pc' scratch store intent)
      (Prepared o K f pc op) := by
  refine (Body.setIndex_paired hc.here.symm).seq fun _ => Body.scratch_paired.bind fun w w' => ?_
  rintro a b ⟨⟨rfl, rfl, -⟩, hab⟩
  exact (lift_paired hx).seq
    (fun intent => follow_paired hc intent hstore hnext hmay hwindow) a b hab

theorem setSlot_advanced {dst : Reg} (i : Nat) (v : Val) (hopens : ¬ op.Opens)
    (hw : ∀ top r, op.Writes top r → r = dst.toNat) :
    Paired (Apart o) (Twin o K { f with index := i }) (Body.setSlot dst.toNat v)
      (Body.setSlot dst.toNat v) fun _ _ => Advanced o K f op :=
  Paired.mono (Body.setSlot_paired _ v) (fun _ _ h => h) (fun _ _ h => h)
    fun _ _ _ _ h => h.2.advanced rfl rfl ⟨hopens, rfl⟩ fun _ hr => hr.imp_right (hw _ _)

theorem pure_advanced (i : Nat) (hopens : ¬ op.Opens) (hw : ∀ top r, ¬ op.Writes top r) :
    Paired (Apart o) (Twin o K { f with index := i }) (pure () : Body F S Unit) (pure ())
      fun _ _ => Advanced o K f op :=
  Paired.pure fun _ _ h => h.advanced rfl rfl ⟨hopens, rfl⟩ fun _ hr => hr.resolve_right (hw _ _)

/-- **Preparations in step.** Activations that agree on what an operation reads prepare it
alike. -/
theorem prepare_paired (function : FnId) (hc : Corresponds o p q pc pc' op op')
    (hK : ∀ r, op.Reads p f.view.top r → K r) :
    Paired (Apart o) (Twin o K f) (prepare function p pc op) (prepare function q pc' op')
      (Prepared o K f pc op) := by
  have hsettled := settled_paired (K := K) (f := f) function hc
  have hform := hc.form
  cases hform with
  | jump => exact hsettled rfl hK
  | test => exact hsettled rfl hK
  | same =>
    cases op with
    | getGlobal dst name =>
      unfold prepare
      dsimp only
      rw [← hc.constants]
      exact ask_paired hc (fun hR => (globals_inStep hR).seq fun _ => planIndex_inStep hR _ _)
        (fun v => setSlot_advanced _ v id fun _ _ h => h) rfl rfl rfl
    | setGlobal name src =>
      unfold prepare
      dsimp only
      rw [← hc.constants]
      exact (Body.getSlot_paired (hK _ rfl)).seq fun value =>
        ask_paired hc (fun hR => (globals_inStep hR).seq fun _ => planNewIndex_inStep hR _ _ _)
          (fun _ => pure_advanced _ id fun _ _ => id) rfl rfl rfl
    | index dst object key =>
      exact (Body.getSlot_paired (hK _ (.inl rfl))).seq fun object =>
        (Body.getSlot_paired (hK _ (.inr rfl))).seq fun key =>
          ask_paired hc (fun hR => planIndex_inStep hR _ _)
            (fun v => setSlot_advanced _ v id fun _ _ h => h) rfl rfl rfl
    | newIndex object key value =>
      exact (Body.getSlot_paired (hK _ (.inl rfl))).seq fun object =>
        (Body.getSlot_paired (hK _ (.inr (.inl rfl)))).seq fun key =>
          (Body.getSlot_paired (hK _ (.inr (.inr rfl)))).seq fun value =>
            ask_paired hc (fun hR => planNewIndex_inStep hR _ _ _)
              (fun _ => pure_advanced _ id fun _ _ => id) rfl rfl rfl
    | binary op dst lhs rhs =>
      exact (Body.getSlot_paired (hK _ (.inl rfl))).seq fun lhs =>
        (Body.getSlot_paired (hK _ (.inr rfl))).seq fun rhs =>
          ask_paired hc (fun hR => planArith_inStep hR _ _ _)
            (fun v => setSlot_advanced _ v id fun _ _ h => h) rfl rfl rfl
    | unary op dst src =>
      cases op with
      | not => exact hsettled rfl hK
      | neg | bnot | len =>
        exact (Body.getSlot_paired (hK _ rfl)).seq fun operand =>
          ask_paired hc (fun hR => planUnary_inStep hR _ _)
            (fun v => setSlot_advanced _ v id fun _ _ h => h) rfl rfl rfl
    | call func args results =>
      refine (Body.getSlot_paired (hK _ (.inl rfl))).seq fun target =>
        Paired.bind (next_paired func) fun u v => ?_
      rintro a b ⟨rfl, rfl, hab⟩
      refine Paired.bind (span_paired (func.toNat + 1) args) (fun u v => ?_) a b hab
      rintro a b ⟨rfl, hfirst, hcover, hab⟩
      obtain ⟨first, last⟩ := u
      obtain rfl : first = func.toNat + 1 := hfirst
      refine (Body.setIndex_paired hc.here.symm).seq (fun _ =>
        Paired.bind Body.frame_paired fun u v => ?_) a b hab
      rintro a b ⟨rfl, rfl, hab⟩
      refine Paired.bind (Body.window_paired fun i hi => hK _ (.inr (hcover _ (by omega) ?_)))
        (fun w w' => Paired.pure fun x y hxy => ⟨rfl, rfl, hxy.2, _, hxy.1⟩) a b hab
      show func.toNat + 1 + i < last
      omega
    | nil | bool | const | move | varInit | varStore | getUpval | setUpval | closure | newTable
    | append | jump | test | tailCall | ret | vararg => exact hsettled rfl hK

/-- **Completions in step.** The outcome of an operation is stored alike. -/
theorem complete_paired (ho : o.heard) (hc : Corresponds o p q pc pc' op op')
    (hop : p.code[pc]? = some op) (hop' : q.code[pc']? = some op')
    (hsame : ¬ op.maySuspend → pc' = pc ∧ op' = op) :
    Paired (Apart o) (Twin o K f) (complete p pc : Body F S Unit) (complete q pc')
      fun _ _ => Advanced o K f op := by
  have hresult : ∀ (post : Val → Val) {dst : Reg}, ¬ op.Opens →
      (∀ top r, op.Writes top r → r = dst.toNat) →
      (∀ {p pc}, p.code[pc]? = some op → complete p pc =
        (do Body.setSlot dst.toNat (post (← Body.lift (result 0))) : Body F S Unit)) →
      op' = op → Paired (Apart o) (Twin o K f) (complete p pc : Body F S Unit) (complete q pc')
        fun _ _ => Advanced o K f op := by
    rintro post dst hopens hw hcomplete rfl
    rw [hcomplete hop, hcomplete hop']
    exact (hear_paired ho fun hears => result_inStep hears 0).seq fun v =>
      setSlot_advanced f.index _ hopens hw
  have hnothing : ¬ op.Opens → (∀ top r, ¬ op.Writes top r) →
      (∀ {p pc}, p.code[pc]? = some op → complete p pc = (pure () : Body F S Unit)) →
      op' = op → Paired (Apart o) (Twin o K f) (complete p pc : Body F S Unit) (complete q pc')
        fun _ _ => Advanced o K f op := by
    rintro hopens hw hcomplete rfl
    rw [hcomplete hop, hcomplete hop']
    exact pure_advanced f.index hopens hw
  have hviolation : (∀ {p pc}, p.code[pc]? = some op → complete p pc =
        (Body.lift (violate (.neverSuspends p.name pc op)) : Body F S Unit)) →
      pc' = pc ∧ op' = op →
      Paired (Apart o) (Twin o K f) (complete p pc : Body F S Unit) (complete q pc')
        fun _ _ => Advanced o K f op := by
    rintro hcomplete ⟨rfl, rfl⟩
    rw [hcomplete hop, hcomplete hop', hc.name]
    exact Paired.throw trivial fun _ _ h => h.apart
  have hform := hc.form
  cases hform with
  | jump => exact hviolation (fun h => by rw [complete, h]) (hsame Bool.false_ne_true)
  | test => exact hviolation (fun h => by rw [complete, h]) (hsame Bool.false_ne_true)
  | same =>
    cases op with
    | getGlobal dst name => exact hresult id id (fun _ _ h => h) (fun h => by rw [complete, h]; rfl) rfl
    | index dst object key =>
      exact hresult id id (fun _ _ h => h) (fun h => by rw [complete, h]; rfl) rfl
    | binary op dst lhs rhs =>
      exact hresult op.finish id (fun _ _ h => h) (fun h => by rw [complete, h]) rfl
    | unary op dst src =>
      cases op with
      | not => exact hviolation (fun h => by rw [complete, h]) (hsame Bool.false_ne_true)
      | neg | bnot | len =>
        exact hresult id id (fun _ _ h => h) (fun h => by rw [complete, h]; rfl) rfl
    | setGlobal name src => exact hnothing id (fun _ _ => id) (fun h => by rw [complete, h]) rfl
    | newIndex object key value =>
      exact hnothing id (fun _ _ => id) (fun h => by rw [complete, h]) rfl
    | call func args results =>
      cases results with
      | fixed n =>
        by_cases hn : n = 0
        · refine hnothing id (fun _ r hr => ?_) (fun h => by simp [complete, h, hn]) rfl
          rw [hn] at hr
          exact absurd hr.2 (Nat.not_lt.2 hr.1)
        · have hcomplete : ∀ {p : Proto} {pc : Nat},
              p.code[pc]? = some (.call func args (.fixed n)) → complete p pc = (do
                let values ← Body.lift resultList
                Body.setSlots func.toNat (padded n.toNat values) : Body F S Unit) :=
            fun h => by simp [complete, h, hn]
          rw [hcomplete hop, hcomplete hop']
          exact (hear_paired ho fun hears => resultList_inStep hears).seq fun values =>
            setSlots_fixed_advanced (.call func args (.fixed n)) values id fun _ _ h => h
      | «open» =>
        have hcomplete : ∀ {p : Proto} {pc : Nat},
            p.code[pc]? = some (.call func args .open) → complete p pc = (do
              let values ← Body.lift resultList
              Body.setSlots func.toNat values
              Body.setTop (func.toNat + values.length) : Body F S Unit) :=
          fun h => by rw [complete, h]
        rw [hcomplete hop, hcomplete hop']
        exact (hear_paired ho fun hears => resultList_inStep hears).seq fun values =>
          setSlots_open_advanced (.call func args .open) values trivial fun _ _ h => h
    | nil | bool | const | move | varInit | varStore | getUpval | setUpval | closure | newTable
    | append | jump | test | tailCall | ret | vararg =>
      exact hviolation (fun h => by rw [complete, h]) (hsame Bool.false_ne_true)

end Asking

end Interpreter

end ScriptCore
