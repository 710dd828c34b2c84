import ScriptCore.Proofs.Follows
import ScriptCore.Proofs.Leftovers
import ScriptCore.Proofs.Requests

/-!
# Dialogues

A program that yields values and goes on with an answer holds a dialogue. On the left it yields to
a partner that resumes it with the answer; on the right the function that yields is replaced by a
host function (`Answer`) that gives the answer at once. Both partners answer by one strategy, a
function of all that was asked so far.

`Beside` relates two machines in such runs. Between resumes the left one keeps its objects, and
nothing else is promised (`Reentered`). `levelled` is the setting for the runs of a machine, and
`requests` and `reentries` are those in which requests and functions are carried out.
-/

namespace ScriptCore

open Machine

/-! ## The host that answers -/

/-- The function that takes the place of the one that yields. -/
inductive Answer
  | answer
deriving DecidableEq, Repr

/-- The answers that a program gets, and what it has asked so far. -/
structure Dialogue where
  strategy : List (List Val) → List Val
  asked : List (List Val)

namespace Dialogue

/-- The dialogue after one more question. -/
def ask (d : Dialogue) (values : List Val) : Dialogue := { d with asked := d.asked ++ [values] }

/-- The answer to the last question. -/
def answer (d : Dialogue) : List Val := d.strategy d.asked

/-- Gives the answer to the arguments; where no yield is possible, it has none. -/
def reply (args : View) : M Answer Dialogue Unit := fun m =>
  if m.thread.boundaries ≠ 0 then .error .misplaced m
  else
    let d := m.host.ask (args.valuesFrom m.thread.stack m.heap.cells 0)
    giveAll d.answer { m with host := d }

end Dialogue

instance : HostBody Answer Dialogue where
  name _ := Builtin.yield.name
  arity _ := Builtin.yield.arity
  isNative _ := true
  text _ := "NativeFunction \x7b name: \"yield\", arity: " ++ Builtin.yield.arity.text ++ " \x7d"
  upvalue? _ _ := none
  invoke _ _ _ args := Dialogue.reply args
  reenter _ _ _ _ index _ _ _ := violate (.notReenterable Builtin.yield.name index)

/-! ## Programs that hold dialogues -/

/-- The partner of a dialogue: how it answers, and which functions add three integers. -/
structure Partner where
  strategy : List (List Val) → List Val
  adders : FnId → Prop

/-- The hand-written bodies that do not yield themselves; the summing one works with the function
that it is made for. -/
def Routine.Quiet (adders : FnId → Prop) : Routine → Prop
  | .recurse _ | .tailStep | .bounce => True
  | .sharedSum add3 => ∃ g, add3 = .fn g ∧ adders g
  | .echo => False

/-- The native functions that have nothing to do with coroutines. -/
def Builtin.Quiet (b : Builtin) : Prop := b.isPlain ∨ b = .tostring ∨ b = .print

/-- The functions of a program in its two runs. -/
inductive Sanctioned (adders : FnId → Prop) : Callable Answer → Callable Answer → Prop
  | closure {proto : Proto} (h : proto.Orderly) (cells cells' : Array CellId) :
    Sanctioned adders (.closure proto cells) (.closure proto cells')
  | builtin {b : Builtin} (h : b.Quiet) : Sanctioned adders (.builtin b) (.builtin b)
  | protection (p : Protection) : Sanctioned adders (.protectedCall p) (.protectedCall p)
  | routine {r : Routine} (h : r.Quiet adders) : Sanctioned adders (.routine r) (.routine r)
  | yield : Sanctioned adders (.builtin .yield) (.host .answer)

/-- The scope of the functions of a program. -/
def Partner.scope (D : Partner) : Scope Answer where
  admits := Sanctioned D.adders
  kept h hc hd := by
    cases h with
    | closure h => cases hc <;> cases hd <;> exact .closure h _ _
    | builtin h => cases hc; cases hd; exact .builtin h
    | protection p => cases hc; cases hd; exact .protection p
    | routine h => cases hc; cases hd; exact .routine h
    | yield => cases hc; cases hd; exact .yield

/-- Closures over the bodies nested in an orderly body are in scope. -/
theorem Proto.Orderly.nests {proto : Proto} (h : proto.Orderly) (D : Partner) :
    D.scope.Nests proto proto :=
  Scope.nests_self fun q hq cells => .closure (h.children q hq) cells cells

/-! ## Machines beside each other -/

variable {D : Partner}

/-- Where the left run was last entered: its window and its machine there, and what was asked. -/
structure Place where
  window : View
  machine : Machine Answer Dialogue
  asked : List (List Val)

/-- A left machine `a`, last entered at `st`, beside a right machine `b` that has come from `y`
with a window at `base`. -/
structure Beside (D : Partner) (y : Machine Answer Dialogue) (base : Nat) (st : Place)
    (a b : Machine Answer Dialogue) : Prop where
  core : a.Core b
  covers : D.scope.Covers a b
  left : st.machine.Evolves st.window.base a
  coroutines : a.heap.coroutines = st.machine.heap.coroutines
  right : y.Evolves base b
  host : b.host = ⟨D.strategy, st.asked⟩
  adders : ∀ g, D.adders g → a.heap.function g = .builtin .add3
  active : a.thread.current.isSome

/-- The origin of two activations at given bases. -/
def Partner.origin (D : Partner) (a b : Machine Answer Dialogue) (leftBase rightBase : Nat) :
    Origin Answer Dialogue where
  left := a
  right := b
  leftBase := leftBase
  rightBase := rightBase
  scope := D.scope
  heard := True
  shared _ := False

theorem Partner.oneBody (D : Partner) (a b : Machine Answer Dialogue) (leftBase rightBase : Nat) :
    (D.origin a b leftBase rightBase).OneBody := ⟨fun _ => rfl, fun _ => id⟩

theorem Machine.Evolves.function_eq {F S : Type} {base : Nat} {m t : Machine F S}
    (h : m.Evolves base t) {f : FnId} {c : Callable F} (hc : m.heap.function f = c)
    (hlt : c ≠ default) (hkept : ∀ d, c.Kept d → d = c) : t.heap.function f = c := by
  subst hc
  refine hkept _ (h.functions f (Nat.lt_of_not_le fun hf => hlt ?_))
  rw [Heap.function, Array.getD_eq_getD_getElem?, Array.getElem?_eq_none hf]
  rfl

namespace Beside

variable {y : Machine Answer Dialogue} {base : Nat} {st : Place} {a b : Machine Answer Dialogue}

/-- Two machines are beside each other in a run that is entered with them. -/
theorem restart (h : Beside D y base st a b) (window : View) (base' : Nat) :
    Beside D b base' ⟨window, a, st.asked⟩ a b :=
  { h with left := .refl _ _, coroutines := rfl, right := .refl _ _ }

theorem parted (h : Beside D y base st a b) (leftBase rightBase : Nat) :
    Parted (D.origin a b leftBase rightBase) a b :=
  ⟨h.core.toKin, fun _ => h.core.results, .refl a, .refl b, .refl _ _, .refl _ _, h.covers,
    nofun⟩

/-- Each side goes on from its base, and disturbs nothing. -/
theorem go (h : Beside D y base st a b) {leftBase rightBase : Nat} {a' b' : Machine Answer Dialogue}
    (hl : st.window.base ≤ leftBase) (hr : base ≤ rightBase)
    (hp : Parted (D.origin a b leftBase rightBase) a' b') : Beside D y base st a' b' where
  core := hp.core trivial h.core
  covers := hp.covers
  left := h.left.trans (hp.left.evolves (hp.leftKept.mono hl))
  coroutines := hp.left.coroutines.trans h.coroutines
  right := h.right.trans (hp.right.evolves (hp.rightKept.mono hr))
  host := hp.right.host.trans h.host
  adders g hg := (hp.left.evolves hp.leftKept).function_eq (h.adders g hg) nofun fun d hd => by
    cases hd; rfl
  active := by rw [hp.left.current]; exact h.active

/-- Steps on objects and results keep machines beside each other. -/
theorem closed (D : Partner) (y : Machine Answer Dialogue) (base : Nat) (st : Place) :
    Closed (Beside D y base st) where
  kin h := h.core.toKin
  steady h ha hb hk hr := h.go (Nat.le_refl _) (Nat.le_refl _)
    ((Parted.closed _).steady (h.parted st.window.base base) ha hb hk hr)

theorem hears (D : Partner) (y : Machine Answer Dialogue) (base : Nat) (st : Place) :
    Hears (Beside D y base st) := fun _ _ h => h.core.results

theorem setTrace (h : Beside D y base st a b) (t t' : Option (Array TraceEvent)) :
    Beside D y base st { a with trace := t } { b with trace := t' } :=
  (closed D y base st).steady h (.ofTrace a t) (.ofTrace b t') { h.core with } id

/-- A part of two runs, entered at `z` on the left and with `y'` on the right, ends within the
whole. -/
theorem outward {y' : Machine Answer Dialogue} {base' : Nat} {z : Place}
    (h : Beside D y' base' z a b) (hasked : z.asked = st.asked)
    (hz : st.machine.Evolves st.window.base z.machine)
    (hcoroutines : z.machine.heap.coroutines = st.machine.heap.coroutines)
    (hl : st.window.base ≤ z.window.base) (hy : y.Evolves base y') (hr : base ≤ base') :
    Beside D y base st a b :=
  { h with
    left := hz.trans (h.left.mono hl)
    coroutines := h.coroutines.trans hcoroutines
    right := hy.trans (h.right.mono hr)
    host := by rw [h.host, hasked] }

end Beside

/-! ## Pauses -/

/-- What a machine has kept when it is resumed: its objects, what it has written, and the calls
in progress. -/
structure Machine.Renewed {F S : Type} (m t : Machine F S) : Prop where
  tables : t.heap.tables = m.heap.tables
  cells : t.heap.cells = m.heap.cells
  functions : t.heap.functions = m.heap.functions
  world : t.world = m.world
  depth : t.thread.depth = m.thread.depth
  boundaries : t.thread.boundaries = m.thread.boundaries
  output : t.output = m.output
  journal : t.journal = m.journal

/-- A machine that was entered at a place and is suspended now, where a yield is possible. -/
structure Paused (st : Place) (a : Machine Answer Dialogue) : Prop where
  evolves : st.machine.Evolves st.window.base a
  coroutines : a.heap.coroutines = st.machine.heap.coroutines
  boundaries : a.thread.boundaries = 0

/-- A place at which a suspended machine is resumed. -/
structure Reentered (st : Place) (s : Suspension) (a : Machine Answer Dialogue) (st' : Place) :
    Prop where
  asked : st'.asked = st.asked ++ [s.values]
  renewed : a.Renewed st'.machine
  active : st'.machine.thread.current.isSome

/-! ## Settings -/

/-- The setting of two runs of a machine: the right one from `y` on, with a window at `base`. -/
def levelled (D : Partner) (y : Machine Answer Dialogue) (base : Nat) (α : Type)
    (left : Place → Suspension → Machine Answer Dialogue → Prop)
    (re : List Link → Place → EStateM.Result Unwind (Machine Answer Dialogue) α) :
    Setting Place (Machine Answer Dialogue) (Machine Answer Dialogue) α α where
  ok st u v a b := u = v ∧ Beside D y base st a b
  error := Beside D y base
  left := left
  again := Reentered
  re := re

/-- The answer at a place. -/
def Partner.answer (D : Partner) (st : Place) : List Val := D.strategy st.asked

/-- Requests that are carried out with fuel `n` on the left. -/
def requests (D : Partner) (n : Nat) (y : Machine Answer Dialogue) (base : Nat) :
    Setting Place (Machine Answer Dialogue) (Machine Answer Dialogue) Unit Unit :=
  levelled D y base Unit (fun st _ a => Paused st a) fun chain st =>
    perform n (.replay chain (D.answer st) st.window) st.machine

/-- Functions that are run with fuel `n` on the left, and re-entered. -/
def reentries (D : Partner) (n : Nat) (y : Machine Answer Dialogue) (base : Nat) :
    Setting Place (Machine Answer Dialogue) (Machine Answer Dialogue) Unit Unit :=
  levelled D y base Unit (fun st s a => Paused st a ∧ s.chain ≠ []) fun chain st =>
    match chain with
    | [] => .error .exhausted st.machine
    | link :: inner =>
      reenterFunction n (perform n) link inner (D.answer st) st.window st.machine

/-- Steps that are not suspended. -/
def unpaused (D : Partner) (y : Machine Answer Dialogue) (base : Nat) (α : Type) :
    Setting Place (Machine Answer Dialogue) (Machine Answer Dialogue) α α :=
  levelled D y base α (fun _ _ _ => False) fun _ st => .error .exhausted st.machine

end ScriptCore
