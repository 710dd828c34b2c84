import ScriptCore.Value

/-!
# The activation stack

All frames of a run share one array of slots. A slot holds a value, or the cell of a variable
that closures capture. The array grows on demand and never shrinks; behind its end every slot
reads as nil.

A `View` is a window on the stack: a base, and a count of live slots from there on. Its
operations address slots relative to the base. A child view starts at an offset in its parent,
and both see one array.
-/

namespace ScriptCore

/-- A slot of the stack. -/
inductive Slot
  | value (v : Val)
  | cell (c : CellId)
deriving DecidableEq, Repr

namespace Slot

/-- The slot that holds nil. -/
def nil : Slot := .value .nil

instance : Inhabited Slot := ⟨nil⟩

/-- The value of a slot, read through its cell. -/
def read (cells : Array Val) : Slot → Val
  | .value v => v
  | .cell c => cells.getD c.index .nil

def cell? : Slot → Option CellId
  | .cell c => some c
  | .value _ => none

end Slot

/-- The slots of all frames. -/
structure Stack where
  slots : Array Slot
deriving Inhabited

namespace Stack

/-- A stack of `n` nils. -/
def ofCapacity (n : Nat) : Stack := ⟨Array.replicate n Slot.nil⟩

def capacity (s : Stack) : Nat := s.slots.size

/-- The slot at an index, nil behind the end. -/
def slot (s : Stack) (i : Nat) : Slot := s.slots.getD i Slot.nil

/-- Provides at least `n` slots; a growth at least doubles the stack. -/
def growTo (s : Stack) (n : Nat) : Stack :=
  if n ≤ s.capacity then s
  else
    let target := max (max n (2 * s.capacity)) 16
    ⟨s.slots ++ Array.replicate (target - s.capacity) Slot.nil⟩

/-- Puts a slot, growing the stack where needed. -/
def put (s : Stack) (i : Nat) (slot : Slot) : Stack :=
  let ⟨slots⟩ := s.growTo (i + 1)
  ⟨slots.setIfInBounds i slot⟩

/-- Makes the `n` slots from `start` on nil; they are inside the stack. -/
def wipe (slots : Array Slot) (start : Nat) : Nat → Array Slot
  | 0 => slots
  | n + 1 => wipe (slots.setIfInBounds start Slot.nil) (start + 1) n

/-- Writes a list of slots from `start` on; they are inside the stack. -/
def fill (slots : Array Slot) (start : Nat) : List Slot → Array Slot
  | [] => slots
  | x :: xs => fill (slots.setIfInBounds start x) (start + 1) xs

/-- Moves the `n` slots from `start` on up by one; the last one moves to a slot inside the
stack. -/
def shiftUp (slots : Array Slot) (start : Nat) : Nat → Array Slot
  | 0 => slots
  | n + 1 =>
    shiftUp (slots.setIfInBounds (start + n + 1) (slots.getD (start + n) Slot.nil)) start n

end Stack

/-- A window on the stack. -/
structure View where
  base : Nat
  /-- How many slots from the base on are live. -/
  top : Nat
deriving DecidableEq, Repr, Inhabited

namespace View

/-- The window at the bottom of the stack, with nothing live. -/
def root : View := ⟨0, 0⟩

def slot (v : View) (s : Stack) (i : Nat) : Slot := s.slot (v.base + i)

/-- Provides `n` slots from the base on. -/
def growTo (v : View) (s : Stack) (n : Nat) : Stack := s.growTo (v.base + n)

/-- Puts a slot; a cell there is replaced, not written through. -/
def put (v : View) (s : Stack) (i : Nat) (slot : Slot) : Stack := s.put (v.base + i) slot

/-- Makes exactly `n` slots live and leaves their contents. -/
def setTop (v : View) (s : Stack) (n : Nat) : View × Stack := (⟨v.base, n⟩, v.growTo s n)

/-- Makes exactly `n` slots live; those that were not live before become nil. -/
def fit (v : View) (s : Stack) (n : Nat) : View × Stack :=
  if v.top < n then
    let ⟨slots⟩ := v.growTo s n
    (⟨v.base, n⟩, ⟨Stack.wipe slots (v.base + v.top) (n - v.top)⟩)
  else (⟨v.base, n⟩, s)

/-- Makes the slots `first … last - 1` nil. -/
def clearRange (v : View) (s : Stack) (first last : Nat) : Stack :=
  if last ≤ first then s
  else
    let ⟨slots⟩ := v.growTo s last
    ⟨Stack.wipe slots (v.base + first) (last - first)⟩

/-- The window that starts `offset` slots further on. -/
def child (v : View) (offset : Nat) : View := ⟨v.base + offset, v.top - offset⟩

/-- Writes values from the base on and makes exactly them live. -/
def load (v : View) (s : Stack) (values : List Val) : View × Stack :=
  let n := values.length
  let ⟨slots⟩ := v.growTo s n
  (⟨v.base, n⟩, ⟨Stack.fill slots v.base (values.map .value)⟩)

/-- Moves the live slots up by one and puts a value at the base. -/
def insertFront (v : View) (s : Stack) (value : Val) : View × Stack :=
  let ⟨slots⟩ := v.growTo s (v.top + 1)
  (⟨v.base, v.top + 1⟩,
    ⟨(Stack.shiftUp slots v.base v.top).setIfInBounds v.base (.value value)⟩)

/-- The first `n` slots; cells stay shared. -/
def snapshot (v : View) (s : Stack) (n : Nat) : List Slot :=
  (List.range n).map fun i => v.slot s i

/-- Writes slots back from the base on. -/
def restore (v : View) (s : Stack) (saved : List Slot) : Stack :=
  let ⟨slots⟩ := v.growTo s saved.length
  ⟨Stack.fill slots v.base saved⟩

/-- The value at an index. -/
def get (v : View) (s : Stack) (cells : Array Val) (i : Nat) : Val := (v.slot s i).read cells

/-- The values `first … last - 1`. -/
def values (v : View) (s : Stack) (cells : Array Val) (first last : Nat) : List Val :=
  (List.range' first (last - first)).map fun i => v.get s cells i

/-- The live values from `first` on. -/
def valuesFrom (v : View) (s : Stack) (cells : Array Val) (first : Nat) : List Val :=
  v.values s cells first v.top

end View

end ScriptCore
