import ScriptCore.Value

/-!
# A store of captured variables

The store that says what closures mean by their variables, without a machine. It has an environment,
which binds the variables of each function by index to a name and a cell, and a value for each cell.

* Closures that share a variable are bound to one cell. A write through one of them is seen by
  exactly those (`Sound.set_read`).
* A new closure takes over cells as they are bound at that moment (`closure_find`), and binds
  nothing else.
* A join binds one variable of one function anew and changes no value (`join_find`, `join_value`).
* What is refused changes nothing (`refused_same`).

Indices count from 0 and may be any integers.
-/

namespace ScriptCore

/-- An environment of captured variables, and the values of their cells. -/
@[ext] structure Variables where
  /-- The name and the cell of a variable of a function. -/
  bound : FnId → Nat → Option (String × CellId)
  value : CellId → Val
  /-- The number of cells made so far. -/
  cells : Nat
  /-- The number of functions made so far. -/
  functions : Nat

namespace Variables

/-- Where a new closure takes the cell of a variable from. -/
inductive Source
  /-- A slot of the running function, with its cell if it has one. -/
  | slot (cell? : Option CellId)
  /-- A variable of the running function. -/
  | variable (f : FnId) (i : Int)

/-- An operation on the store. -/
inductive Op
  | get (f : FnId) (i : Int)
  | set (f : FnId) (i : Int) (v : Val)
  /-- Binds variable `i` of `f` to the cell of variable `j` of `g`. -/
  | join (f : FnId) (i : Int) (g : FnId) (j : Int)
  /-- A new function over the cells of other variables. -/
  | closure (captures : List (String × Source))
  /-- A new function over new variables. -/
  | load (names : List String)
  /-- A new cell. -/
  | introduce (v : Val)
  /-- Writes the cell of a slot, if the slot has one. -/
  | assign (cell? : Option CellId) (v : Val)

/-- What an operation finds out. -/
inductive Answer
  /-- The variable, as it was before. -/
  | variable (name : String) (c : CellId) (v : Val)
  | function (g : FnId)
  | cell (c : CellId)
  | done
  | refused

variable (V : Variables)

/-- The variable at an index. -/
def find (f : FnId) (i : Int) : Option (String × CellId) := if i < 0 then none else V.bound f i.toNat

/-- The value of a variable. -/
def read (f : FnId) (i : Int) : Option Val := (V.find f i).map fun x => V.value x.2

/-- The store in which a cell has another value. -/
def write (c : CellId) (v : Val) : Variables :=
  if c.index < V.cells then { V with value := fun d => if d = c then v else V.value d } else V

/-- The store with one more cell. -/
def introduced (v : Val) : Variables :=
  { V with value := fun d => if d = ⟨V.cells⟩ then v else V.value d, cells := V.cells + 1 }

/-- The store in which a variable is bound to another cell. -/
def rebound (f : FnId) (i : Nat) (x : String × CellId) : Variables :=
  { V with bound := fun g j => if g = f ∧ j = i then some x else V.bound g j }

/-- The store with one more function, over given variables. -/
def extended (xs : List (String × CellId)) : Variables :=
  { V with
    bound := fun g j => if g = ⟨V.functions⟩ then xs[j]? else V.bound g j
    functions := V.functions + 1 }

/-- The cell that a source stands for. -/
def source : Source → Option CellId
  | .slot cell? => cell?
  | .variable f i => (V.find f i).map (·.2)

/-- The variables that a new closure takes over, if it finds them all. -/
def resolve : List (String × Source) → Option (List (String × CellId))
  | [] => some []
  | (name, s) :: rest => do return (name, ← V.source s) :: (← resolve rest)

/-- New variables without a value, and the store that has them. -/
def fresh (V : Variables) : List String → List (String × CellId) × Variables
  | [] => ([], V)
  | name :: names =>
    let (xs, W) := (V.introduced .nil).fresh names
    ((name, ⟨V.cells⟩) :: xs, W)

/-- An operation, carried out. -/
def step : Op → Answer × Variables
  | .get f i =>
    match V.find f i with
    | some (name, c) => (.variable name c (V.value c), V)
    | none => (.refused, V)
  | .set f i v =>
    match V.find f i with
    | some (name, c) => (.variable name c (V.value c), V.write c v)
    | none => (.refused, V)
  | .join f i g j =>
    match V.find f i, V.find g j with
    | some (name, _), some (_, d) => (.done, V.rebound f i.toNat (name, d))
    | _, _ => (.refused, V)
  | .closure captures =>
    match V.resolve captures with
    | some xs => (.function ⟨V.functions⟩, V.extended xs)
    | none => (.refused, V)
  | .load names =>
    let (xs, W) := V.fresh names
    (.function ⟨W.functions⟩, W.extended xs)
  | .introduce v => (.cell ⟨V.cells⟩, V.introduced v)
  | .assign (some c) v => (.done, V.write c v)
  | .assign none _ => (.done, V)

/-- The store after operations. -/
def after (V : Variables) (ops : List Op) : Variables := ops.foldl (fun V op => (V.step op).2) V

theorem after_append (xs ys : List Op) : V.after (xs ++ ys) = (V.after xs).after ys :=
  List.foldl_append

/-! ## Stores whose variables have cells -/

/-- Every variable has one of the cells, and only functions that were made have variables. -/
structure Sound : Prop where
  cell : ∀ {f i x}, V.bound f i = some x → x.2.index < V.cells
  function : ∀ {f i x}, V.bound f i = some x → f.index < V.functions

variable {V} {f g : FnId} {i j : Int}

theorem find_eq_some {x : String × CellId} (h : V.find f i = some x) :
    0 ≤ i ∧ V.bound f i.toNat = some x := by
  unfold find at h
  split at h
  · cases h
  · exact ⟨by omega, h⟩

theorem Sound.find_cell (hV : V.Sound) {x : String × CellId} (h : V.find f i = some x) :
    x.2.index < V.cells := hV.cell (find_eq_some h).2

@[simp] theorem find_write (c : CellId) (v : Val) : (V.write c v).find = V.find := by
  unfold write
  split <;> rfl

/-- **Writes are seen by those who share the cell.** After a write through a variable, the variables
bound to its cell have the value written, all others have the value they had, and every variable
is bound as before. -/
theorem Sound.set_read (hV : V.Sound) {x : String × CellId} (h : V.find f i = some x) (v : Val)
    (g : FnId) (j : Int) :
    (V.step (.set f i v)).2.find g j = V.find g j ∧
      (V.step (.set f i v)).2.read g j =
        if (V.find g j).map (·.2) = some x.2 then some v else V.read g j := by
  have hstep : (V.step (.set f i v)).2 = V.write x.2 v := by simp only [step, h]
  rw [hstep]
  refine ⟨by rw [find_write], ?_⟩
  rw [read, find_write, write, if_pos (hV.find_cell h), read]
  cases V.find g j with
  | none => rfl
  | some y =>
    by_cases hy : y.2 = x.2
    · simp [hy]
    · simp [hy]

/-- **Joins bind one variable.** It keeps its name and gets the cell of the other variable; all
others are bound as before. -/
theorem join_find {x y : String × CellId} (hf : V.find f i = some x) (hg : V.find g j = some y)
    (h : FnId) (k : Int) :
    (V.step (.join f i g j)).2.find h k =
      if h = f ∧ k = i then some (x.1, y.2) else V.find h k := by
  have hi := (find_eq_some hf).1
  have hstep : (V.step (.join f i g j)).2 = V.rebound f i.toNat (x.1, y.2) := by
    simp only [step, hf, hg]
  rw [hstep]
  unfold find rebound
  by_cases hk : k < 0
  · rw [if_pos hk, if_neg (by omega), if_pos hk]
  · rw [if_neg hk, if_neg hk]
    dsimp only
    by_cases hkey : h = f ∧ k = i
    · rw [if_pos hkey, if_pos ⟨hkey.1, congrArg Int.toNat hkey.2⟩]
    · rw [if_neg hkey, if_neg fun hkey' => hkey ⟨hkey'.1, by omega⟩]

/-- A join changes no value and makes nothing. -/
theorem join_value (f : FnId) (i : Int) (g : FnId) (j : Int) :
    (V.step (.join f i g j)).2.value = V.value ∧ (V.step (.join f i g j)).2.cells = V.cells ∧
      (V.step (.join f i g j)).2.functions = V.functions := by
  unfold step
  dsimp only
  split <;> exact ⟨rfl, rfl, rfl⟩

/-- A variable that a closure takes over. -/
theorem resolve_getElem? {captures : List (String × Source)} {xs : List (String × CellId)}
    (h : V.resolve captures = some xs) (k : Nat) :
    xs[k]? = captures[k]?.bind fun s => (V.source s.2).map (s.1, ·) := by
  induction captures generalizing xs k with
  | nil =>
    cases h
    rfl
  | cons s captures ih =>
    obtain ⟨name, s⟩ := s
    cases hs : V.source s with
    | none => simp [resolve, hs] at h
    | some c =>
      cases hrest : V.resolve captures with
      | none => simp [resolve, hs, hrest] at h
      | some ys =>
        obtain rfl : (name, c) :: ys = xs := by simpa [resolve, hs, hrest] using h
        cases k with
        | zero => simp [hs]
        | succ k => simpa using ih hrest k

/-- **Closures bind cells of the moment.** Variable `k` of a new closure is bound to the cell that
its source has now; the variables of all other functions are bound as before, and no value is
changed. -/
theorem closure_find {captures : List (String × Source)} {xs : List (String × CellId)}
    (h : V.resolve captures = some xs) (g : FnId) (k : Nat) :
    (V.step (.closure captures)).1 = .function ⟨V.functions⟩ ∧
      (V.step (.closure captures)).2.value = V.value ∧
      (V.step (.closure captures)).2.find g k =
        if g = ⟨V.functions⟩ then captures[k]?.bind fun s => (V.source s.2).map (s.1, ·)
        else V.find g k := by
  simp only [step, h]
  refine ⟨trivial, rfl, ?_⟩
  rw [← resolve_getElem? h]
  rfl

/-- What is refused changes nothing. -/
theorem refused_same {op : Op} (h : (V.step op).1 = .refused) : (V.step op).2 = V := by
  cases op with
  | get f i =>
    simp only [step]
    split <;> rfl
  | set f i =>
    cases hf : V.find f i <;> simp_all [step]
  | join f i g j =>
    cases hf : V.find f i <;> cases hg : V.find g j <;> simp_all [step]
  | closure captures =>
    cases hr : V.resolve captures <;> simp_all [step]
  | load | introduce => cases h
  | assign cell? v => cases cell? <;> cases h

end Variables

end ScriptCore
