import ScriptCore.Proofs.Aligned

/-!
# Tail calls spelled out

A tail call may be spelled out as a call and the return of all its results. That puts one more
operation behind it, so the operations of the body move (`spread`) and jumps lead to where their
targets have come (`Proto.Spells`). In a program that is spelled out the bodies nested in others
may be as well (`Proto.SpelledOut`).

A call that is spelled out keeps its frame, where a tail call has given it up. So a coroutine that is
suspended below it has one more frame, and all that it does is to pass the results on
(`Machine.Threaded`).
-/

namespace ScriptCore

open Machine

/-! ## Bodies -/

/-- Where the operation at a place comes to stand if some of the operations before it become two. -/
def spread (cut : Nat → Bool) : Nat → Nat
  | 0 => 0
  | pc + 1 => spread cut pc + if cut pc then 2 else 1

/-- The segment that takes the place of a segment. -/
def spreadSegment (cut : Nat → Bool) : Nat → Nat
  | 0 => 0
  | pc + 1 => spread cut pc + 1

section Spread

variable {cut : Nat → Bool} {pc n : Nat}

theorem spread_kept (h : cut pc = false) : spread cut (pc + 1) = spread cut pc + 1 := by
  simp [spread, h]

theorem spread_mono (h : pc ≤ n) : spread cut pc ≤ spread cut n := by
  induction h with
  | refl => exact Nat.le_refl _
  | step _ ih => exact Nat.le_trans ih (Nat.le_add_right ..)

end Spread

/-- The same operation in a body whose operations have moved. -/
inductive Op.Moved (place : Nat → Nat) : Op → Op → Prop
  | jump {dest dest' : UInt32} (h : dest'.toNat = place dest.toNat) : Moved place (.jump dest) (.jump dest')
  | test (cond : Reg) (when : Bool) {dest dest' : UInt32} (h : dest'.toNat = place dest.toNat) :
    Moved place (.test cond when dest) (.test cond when dest')
  | same {op : Op} (h : ∀ dest, ¬ op.JumpsTo dest) : Moved place op op

/-- The registers that an operation hands over as arguments while `top` slots are live. -/
def Op.Hands (op : Op) (top r : Nat) : Prop :=
  match op with
  | .call func args _ | .tailCall func args => args.Covers (func.toNat + 1) top r
  | _ => False

namespace Proto

/-- The body `q` is `p` with the tail calls at some places spelled out. -/
structure Spells (cut : Nat → Bool) (p q : Proto) : Prop where
  name : p.name = q.name
  params : p.params = q.params
  vararg : p.vararg = q.vararg
  slots : p.slots = q.slots
  reified : p.reified = q.reified
  constants : p.constants = q.constants
  upvalues : p.upvalues = q.upvalues
  size : q.code.size = spread cut p.code.size
  kept : ∀ {pc : Nat} {op : Op}, p.code[pc]? = some op → cut pc = false →
    ∃ op', q.code[spread cut pc]? = some op' ∧ op.Moved (spread cut) op'
  spelled : ∀ {pc : Nat}, cut pc = true → ∃ func args, p.code[pc]? = some (.tailCall func args) ∧
    q.code[spread cut pc]? = some (.call func args .open) ∧
    q.code[spread cut pc + 1]? = some (.ret func .open)

/-- The body `q` is `p` with some tail calls spelled out, and so are the bodies nested in it. -/
inductive SpelledOut : Proto → Proto → Prop
  | intro {p q : Proto} {cut : Nat → Bool} (spells : p.Spells cut q)
    (count : p.children.length = q.children.length)
    (children : ∀ (i : Nat) (c d : Proto), p.children[i]? = some c → q.children[i]? = some d →
      SpelledOut c d) : SpelledOut p q

/-- No captured variable is in the window of a call, neither here nor in the bodies nested in this
one. What the operation before the call has put there by itself is none. -/
inductive ByValue : Proto → Prop
  | intro {p : Proto} (plain : ∀ {pc : Nat} {op : Op} {top r : Nat}, p.code[pc]? = some op →
      op.Hands top r → p.isReified r → p.Fresh pc top r)
    (children : ∀ q ∈ p.children, ByValue q) : ByValue p

variable {p q : Proto} {cut : Nat → Bool}

theorem ByValue.plain (h : p.ByValue) {pc : Nat} {op : Op} {top r : Nat}
    (hop : p.code[pc]? = some op) (hr : op.Hands top r) (hreified : p.isReified r) :
    p.Fresh pc top r := by
  cases h with
  | intro plain _ => exact plain hop hr hreified

theorem ByValue.children (h : p.ByValue) : ∀ q ∈ p.children, q.ByValue := by
  cases h with
  | intro _ children => exact children

namespace Spells

variable (h : p.Spells cut q)

include h

theorem alike : p.Alike q where
  name := h.name
  layout := by
    unfold layout
    rw [h.params, h.vararg, h.slots]
  upvalues := h.upvalues

theorem isReified (r : Nat) : p.isReified r = q.isReified r := by
  unfold Proto.isReified
  rw [h.reified]

/-- An operation that is not spelled out. -/
theorem kept_of_ne {pc : Nat} {op : Op} (hop : p.code[pc]? = some op)
    (hne : ∀ func args, op ≠ .tailCall func args) : cut pc = false := by
  cases hcut : cut pc with
  | false => rfl
  | true =>
    obtain ⟨func, args, htail, -⟩ := h.spelled hcut
    exact (hne func args (Option.some.inj (hop.symm.trans htail))).elim

/-- Both bodies end at the same place. -/
theorem ends {pc : Nat} (hop : p.code[pc]? = none) : q.code[spread cut pc]? = none := by
  rw [Array.getElem?_eq_none_iff] at hop ⊢
  rw [h.size]
  exact spread_mono hop

end Spells

theorem SpelledOut.alike (h : p.SpelledOut q) : p.Alike q := by
  cases h with
  | intro spells _ _ => exact spells.alike

end Proto

/-! ## Functions -/

/-- A function of a program, and the function in its place in the program spelled out. -/
inductive Callable.SpelledOut : Callable Empty → Callable Empty → Prop
  | closure {p q : Proto} (orderly : p.Orderly) (byValue : p.ByValue) (h : p.SpelledOut q)
    (cells cells' : Array CellId) : SpelledOut (.closure p cells) (.closure q cells')
  | builtin (b : Builtin) : SpelledOut (.builtin b) (.builtin b)
  | protection (p : Protection) : SpelledOut (.protectedCall p) (.protectedCall p)
  | wrapped (co : CoId) : SpelledOut (.wrapped co) (.wrapped co)

/-- The scope of a program and the program spelled out. -/
def Scope.spelling : Scope Empty where
  admits := Callable.SpelledOut
  kept h hc hd := by
    cases h with
    | closure orderly byValue h => cases hc <;> cases hd <;> exact .closure orderly byValue h _ _
    | builtin b => cases hc; cases hd; exact .builtin b
    | protection p => cases hc; cases hd; exact .protection p
    | wrapped co => cases hc; cases hd; exact .wrapped co

/-- Closures over the nested bodies are in scope. -/
theorem Proto.SpelledOut.nests {p q : Proto} (h : p.SpelledOut q) (horderly : p.Orderly)
    (hbyValue : p.ByValue) : Scope.spelling.Nests p q := by
  cases h with
  | intro _ count children =>
    intro i
    cases hc : p.children[i]? with
    | none =>
      have hd : q.children[i]? = none := by
        rw [List.getElem?_eq_none_iff] at hc ⊢
        rw [← count]
        exact hc
      rw [hd]
      exact .none
    | some c =>
      have hi : i < q.children.length := by
        rw [← count]
        exact (List.getElem?_eq_some_iff.1 hc).1
      have hd : q.children[i]? = some q.children[i] := List.getElem?_eq_getElem hi
      have hcd := children i c _ hc hd
      have hmem : c ∈ p.children := List.mem_of_getElem? hc
      rw [hd]
      exact .some ⟨hcd.alike, fun cells =>
        .closure (horderly.children c hmem) (hbyValue.children c hmem) hcd cells cells⟩

/-! ## Suspended frames -/

/-- Two saved frames of a body and the body spelled out, suspended at one operation. They agree on
the registers that are known below its window. -/
structure Saved.Resembles (p : Proto) (pc : Nat) (op : Op) (s t : Saved) : Prop where
  top : s.top = t.top
  varargs : s.varargs = t.varargs
  left : s.slots.length = p.slots
  right : t.slots.length = p.slots
  regs : ∀ r, p.Known pc s.top r → r < op.windowAt p.slots →
    s.slots.getD r .nil = t.slots.getD r .nil
  bare : ∀ r, p.Known pc s.top r → r < op.windowAt p.slots → p.isReified r = false →
    ∃ v, s.slots.getD r .nil = .value v

namespace Machine

variable {a b a' b' : Machine Empty PUnit} {l l' : Link}

/-- The body of a closure of the heap. -/
def proto? (m : Machine Empty PUnit) (f : FnId) : Option Proto := (m.heap.function f).proto?

theorem closure_of_proto? {m : Machine Empty PUnit} {f : FnId} {p : Proto}
    (h : m.proto? f = some p) : ∃ cells, m.heap.function f = .closure p cells := by
  unfold proto? at h
  cases hc : m.heap.function f with
  | closure q cells =>
    rw [hc] at h
    cases h
    exact ⟨cells, rfl⟩
  | builtin | protectedCall | wrapped | routine | host => rw [hc] at h; cases h

/-- Two links of one function. -/
inductive Matches (a b : Machine Empty PUnit) : Link → Link → Prop
  | body {f : FnId} {p q : Proto} {cut : Nat → Bool} {pc : Nat} {op : Op} {saved saved' : Saved}
    (left : a.proto? f = some p) (right : b.proto? f = some q) (spells : p.Spells cut q)
    (reaches : p.Reaches pc) (hop : p.code[pc]? = some op) (may : op.maySuspend)
    (resembles : saved.Resembles p pc op saved') :
    Matches a b ⟨f, pc + 1, saved⟩ ⟨f, spread cut pc + 1, saved'⟩
  | protection {f : FnId} {p : Protection} (left : a.heap.function f = .protectedCall p)
    (right : b.heap.function f = .protectedCall p) (index : Nat) (saved : Saved) :
    Matches a b ⟨f, index, saved⟩ ⟨f, index, saved⟩

/-- A link that passes the results on: all results of the call that is pending are returned. -/
def Relays (m : Machine Empty PUnit) (link : Link) : Prop :=
  ∃ q pc func args, m.proto? link.function = some q ∧ link.index = pc + 1 ∧
    q.code[pc]? = some (.call func args .open) ∧ q.code[pc + 1]? = some (.ret func .open)

/-- Two chains of links. The right one has more of them, and these pass the results on. -/
inductive Threaded (a b : Machine Empty PUnit) : List Link → List Link → Prop
  | nil : Threaded a b [] []
  | cons {l l' : Link} {ls ls' : List Link} (h : Matches a b l l') (hs : Threaded a b ls ls') :
    Threaded a b (l :: ls) (l' :: ls')
  | relay {l' : Link} {ls ls' : List Link} (h : b.Relays l') (hs : Threaded a b ls ls') :
    Threaded a b ls (l' :: ls')

/-- Two coroutines in one state. -/
inductive Akin (a b : Machine Empty PUnit) : Coroutine → Coroutine → Prop
  | still {c : Coroutine} (h : ∀ chain, c ≠ .suspended chain) : Akin a b c c
  | suspended {ls ls' : List Link} (h : Threaded a b ls ls') :
    Akin a b (.suspended ls) (.suspended ls')

/-- Every function keeps its body. -/
def Keeps (m m' : Machine Empty PUnit) : Prop :=
  ∀ f : FnId, f.index < m.heap.functions.size → (m.heap.function f).Kept (m'.heap.function f)

theorem lt_size_of_ne {m : Machine Empty PUnit} {f : FnId} (h : m.heap.function f ≠ default) :
    f.index < m.heap.functions.size := by
  refine Nat.lt_of_not_le fun hf => h ?_
  rw [Heap.function, Array.getD_eq_getD_getElem?, Array.getElem?_eq_none hf]
  rfl

namespace Keeps

variable {m m' : Machine Empty PUnit}

theorem refl (m : Machine Empty PUnit) : m.Keeps m := fun _ _ => .same _

theorem proto? (h : m.Keeps m') {f : FnId} {p : Proto} (hf : m.proto? f = some p) :
    m'.proto? f = some p := by
  refine (h f (lt_size_of_ne fun hdefault => ?_)).proto?_eq.trans hf
  rw [Machine.proto?, hdefault] at hf
  cases hf

theorem protectedCall (h : m.Keeps m') {f : FnId} {p : Protection}
    (hf : m.heap.function f = .protectedCall p) : m'.heap.function f = .protectedCall p := by
  have hkept := h f (lt_size_of_ne fun hdefault => by rw [hdefault] at hf; cases hf)
  rw [hf] at hkept
  generalize m'.heap.function f = d at hkept
  cases hkept
  rfl

end Keeps

theorem Matches.mono (h : Matches a b l l') (ha : a.Keeps a') (hb : b.Keeps b') :
    Matches a' b' l l' := by
  cases h with
  | body left right spells reaches hop may resembles =>
    exact .body (ha.proto? left) (hb.proto? right) spells reaches hop may resembles
  | protection left right index saved =>
    exact .protection (ha.protectedCall left) (hb.protectedCall right) index saved

theorem Relays.mono (h : b.Relays l) (hb : b.Keeps b') : b'.Relays l := by
  obtain ⟨q, pc, func, args, hq, hrest⟩ := h
  exact ⟨q, pc, func, args, hb.proto? hq, hrest⟩

theorem Threaded.mono {ls ls' : List Link} (h : Threaded a b ls ls') (ha : a.Keeps a')
    (hb : b.Keeps b') : Threaded a' b' ls ls' := by
  induction h with
  | nil => exact .nil
  | cons h _ ih => exact .cons (h.mono ha hb) ih
  | relay h _ ih => exact .relay (h.mono hb) ih

theorem Akin.mono {c d : Coroutine} (h : Akin a b c d) (ha : a.Keeps a') (hb : b.Keeps b') :
    Akin a' b' c d := by
  cases h with
  | still h => exact .still h
  | suspended h => exact .suspended (h.mono ha hb)

theorem Akin.status {c d : Coroutine} (h : Akin a b c d) : c.status = d.status := by
  cases h <;> rfl

end Machine

end ScriptCore
