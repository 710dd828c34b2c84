import ScriptCore.Fault
import Std.Data.HashMap

/-!
# Tables

A table maps keys to values that are not nil. Keys are values in normal form: nil and
not-a-number are no keys, and a float that stands for an integer is that integer.

The entries `1 … n` without a gap lie in the array part and all others in the hash part. The
last array entry is never nil, so the length of the array is a border of the table.
-/

namespace ScriptCore

namespace Val

/-- The normal form of a value as a key. -/
def toKey : Val → Except InvalidKey Val
  | .nil => .error .nil
  | .float x =>
    if x.isNaN then .error .nan
    else .ok (match x.toInt64? with | some n => .int n | none => .float x)
  | v => .ok v

end Val

/-- A table of the heap. -/
structure Table where
  array : Array Val
  hash : Std.HashMap Val Val
  metatable : Option TableId

namespace Table

def empty : Table := ⟨#[], ∅, none⟩

instance : Inhabited Table := ⟨empty⟩

/-- The place of a key in an array part of length `len`. -/
def arrayIndex? (key : Val) (len : Nat) : Option Nat :=
  match key with
  | .int n => if 1 ≤ n.toInt ∧ n.toInt ≤ len then some (n.toInt - 1).toNat else none
  | _ => none

/-- The key that continues an array part of length `len`, as far as integers go. -/
def nextKey? (len : Nat) : Option Val :=
  if len + 1 < twoPow 63 then some (.ofNat (len + 1)) else none

/-- The value at a key in normal form. -/
def lookup (t : Table) (key : Val) : Val :=
  match arrayIndex? key t.array.size with
  | some i => t.array.getD i .nil
  | none => t.hash.getD key .nil

/-- The value at a key, nil where there is none. -/
def get (t : Table) (key : Val) : Val :=
  match key.toKey with
  | .ok k => t.lookup k
  | .error _ => .nil

def getStr (t : Table) (key : String) : Val := t.get (.str key)

/-- Drops nils from the end. -/
def trim (array : Array Val) : Array Val :=
  if h : 0 < array.size then
    if array[array.size - 1].isNil then trim array.pop else array
  else array
termination_by array.size

/-- Moves the entries that continue the array out of the hash part. -/
def migrate (array : Array Val) (hash : Std.HashMap Val Val) :
    Array Val × Std.HashMap Val Val :=
  match nextKey? array.size with
  | none => (array, hash)
  | some next =>
    if h : next ∈ hash then migrate (array.push hash[next]) (hash.erase next) else (array, hash)
termination_by hash.size
decreasing_by
  have hpos : 0 < hash.size := by
    rw [Nat.pos_iff_ne_zero]
    intro h0
    have hempty : hash.isEmpty = true := by simp [Std.HashMap.isEmpty_eq_size_eq_zero, h0]
    exact absurd h (Std.HashMap.not_mem_of_isEmpty hempty)
  rw [Std.HashMap.size_erase]
  simp only [h, if_true]
  omega

/-- Writes a value at a key in normal form; nil removes the entry. -/
def insert (t : Table) (key value : Val) : Table :=
  let ⟨array, hash, metatable⟩ := t
  match arrayIndex? key array.size with
  | some i =>
    let last := i + 1 == array.size
    let array := array.setIfInBounds i value
    ⟨if last then trim array else array, hash, metatable⟩
  | none =>
    if value.isNil then ⟨array, hash.erase key, metatable⟩
    else if nextKey? array.size = some key then
      let (array, hash) := migrate (array.push value) (hash.erase key)
      ⟨array, hash, metatable⟩
    else ⟨array, hash.insert key value, metatable⟩

/-- Writes a value at a key, if the value can be a key. -/
def set (t : Table) (key value : Val) : Except InvalidKey Table := do
  return t.insert (← key.toKey) value

/-- Writes values at consecutive indices. -/
def setList (t : Table) (first : Int) : List Val → Table
  | [] => t
  | v :: vs => setList (t.insert (.int (Int64.ofInt first)) v) (first + 1) vs

/-- A border: entry `n` is present, if `n` is not 0, and entry `n + 1` is not. -/
def len (t : Table) : Nat := t.array.size

def isEmpty (t : Table) : Bool := t.array.isEmpty && t.hash.isEmpty

end Table

end ScriptCore
