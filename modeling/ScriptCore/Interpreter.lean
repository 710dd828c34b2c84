import ScriptCore.Dispatch

/-!
# Running a compiled body

The operation at `pc` suspends with index `pc + 1`, and index 0 is the entry of the body.
`complete` stores the outcome of the operation at `pc` from the result channel. A fresh call
ends in it, and so does a resumed one, so both continue in the same way.

`execute` runs one operation and tells where to go on; `loop` runs operations until the body
returns, asks for a tail call, or runs off its end.
-/

namespace ScriptCore

namespace Machine

variable {F S : Type}

/-- Fresh nil cells in place of missing ones. -/
def freshCells (cells : Array CellId) : Nat → M F S (Array CellId)
  | 0 => pure cells
  | n + 1 => do freshCells (cells.push (← newCell .nil)) n

/-- A closure over a body, with as many cells as the body captures. -/
def newClosure (proto : Proto) (cells : Array CellId) : M F S FnId := do
  let n := proto.upvalues.length
  let cells ← freshCells (cells.extract 0 n) (n - cells.size)
  newFunction (.closure proto cells)

end Machine

namespace Interpreter

open Machine

variable {F S : Type}

/-- Where to go on after an operation. -/
inductive Next
  | goto (pc : Nat)
  | done
deriving Inhabited

/-- The first `n` values, filled up with nil. -/
def padded (n : Nat) (values : List Val) : List Val :=
  values.take n ++ List.replicate (n - values.length) .nil

/-- The first slot of a span and the slot behind it. -/
def span (base : Nat) : Count → Body F S (Nat × Nat)
  | .fixed n => pure (base, base + n.toNat)
  | .open => do return (base, max (← Body.frame).view.top base)

/-- The values of a span. -/
def spanValues (base : Nat) (count : Count) : Body F S (List Val) := do
  let (first, last) ← span base count
  Body.slotValues first last

/-- The cell of a captured variable of a closure. -/
def capturedCell (function : FnId) (proto : Proto) (idx : Nat) : M F S CellId := do
  match ← functionAt function with
  | .closure _ cells =>
    match cells[idx]? with
    | some c => return c
    | none => violate (.noUpvalue proto.name idx)
  | _ => violate (.noUpvalue proto.name idx)

/-- The cells that a nested body captures. -/
def captureCells (function : FnId) (proto child : Proto) (view : View) :
    List UpvalueDesc → Array CellId → M F S (Array CellId)
  | [], cells => pure cells
  | d :: ds, cells => do
    let cell ← match d.capture with
      | .slot r => do
        match ← slotAt view r.toNat with
        | .cell c => pure c
        | .value _ => violate (.neverReified child.name r.toNat proto.name)
      | .upvalue idx => capturedCell function proto idx.toNat
    captureCells function proto child view ds (cells.push cell)

/-- A closure over a nested body. -/
def makeClosure (function : FnId) (proto : Proto) (idx : Nat) : Body F S Val := do
  match proto.children[idx]? with
  | none => Body.lift (violate (.noChild proto.name idx))
  | some child =>
    let view := (← Body.frame).view
    Body.lift do
      let cells ← captureCells function proto child view child.upvalues #[]
      return .fn (← newClosure child cells)

/-- Writes the values of a span to a table, from an index on. -/
def appendSpan (proto : Proto) (pc : Nat) (base : Reg) (count : Count) (first : UInt32) :
    Val → Body F S Unit
  | .table t => do
    let values ← spanValues base.toNat count
    Body.lift (setList t first.toNat values)
  | _ => Body.lift (violate (.appendTarget proto.name pc))

/-- Stores the outcome of the operation at `pc` from the result channel. -/
def complete (proto : Proto) (pc : Nat) : Body F S Unit := do
  match proto.code[pc]? with
  | none => Body.lift (violate (.pastCode proto.name pc))
  | some op =>
    match op with
    | .call func _ (.fixed n) =>
      if n ≠ 0 then
        let values ← Body.lift resultList
        Body.setSlots func.toNat (padded n.toNat values)
    | .call func _ .open =>
      let values ← Body.lift resultList
      Body.setSlots func.toNat values
      Body.setTop (func.toNat + values.length)
    | .binary op dst _ _ => Body.setSlot dst.toNat (op.finish (← Body.lift (result 0)))
    | .unary .not _ _ => Body.lift (violate (.neverSuspends proto.name pc op))
    | .unary _ dst _ | .index dst _ _ | .getGlobal dst _ =>
      Body.setSlot dst.toNat (← Body.lift (result 0))
    | .newIndex .. | .setGlobal .. => pure ()
    | op => Body.lift (violate (.neverSuspends proto.name pc op))

/-- Runs the operation at `pc`. -/
def execute (perform : Perform F S) (function : FnId) (proto : Proto) (pc : Nat) (op : Op) :
    Body F S Next := do
  match op with
  | .nil dst => Body.setSlot dst.toNat .nil
  | .bool dst value => Body.setSlot dst.toNat (.bool value)
  | .const dst idx => Body.setSlot dst.toNat (proto.constants.getD idx.toNat .nil)
  | .move dst src => Body.setSlot dst.toNat (← Body.getSlot src.toNat)
  | .varInit var src =>
    let value ← Body.getSlot src.toNat
    let view := (← Body.frame).view
    Body.lift do putSlot view var.toNat (.cell (← newCell value))
  | .varStore var src =>
    let value ← Body.getSlot src.toNat
    let view := (← Body.frame).view
    Body.lift (store view var.toNat value)
  | .getUpval dst idx =>
    let value ← Body.lift do cellAt (← capturedCell function proto idx.toNat)
    Body.setSlot dst.toNat value
  | .setUpval idx src =>
    let cell ← Body.lift (capturedCell function proto idx.toNat)
    let value ← Body.getSlot src.toNat
    Body.lift (putCell cell value)
  | .closure dst child => Body.setSlot dst.toNat (← makeClosure function proto child.toNat)
  | .newTable dst => Body.setSlot dst.toNat (.table (← Body.lift newTable))
  | .append table base count first =>
    appendSpan proto pc base count first (← Body.getSlot table.toNat)
  | .getGlobal dst name =>
    let key := proto.constants.getD name.toNat .nil
    Body.setIndex (pc + 1)
    let scratch ← Body.scratch
    let value ← Body.lift do index perform scratch (.table (← globals)) key
    Body.setSlot dst.toNat value
  | .setGlobal name src =>
    let key := proto.constants.getD name.toNat .nil
    let value ← Body.getSlot src.toNat
    Body.setIndex (pc + 1)
    let scratch ← Body.scratch
    Body.lift do newIndex perform scratch (.table (← globals)) key value
  | .index dst object key =>
    let object ← Body.getSlot object.toNat
    let key ← Body.getSlot key.toNat
    Body.setIndex (pc + 1)
    let scratch ← Body.scratch
    Body.setSlot dst.toNat (← Body.lift (index perform scratch object key))
  | .newIndex object key value =>
    let object ← Body.getSlot object.toNat
    let key ← Body.getSlot key.toNat
    let value ← Body.getSlot value.toNat
    Body.setIndex (pc + 1)
    let scratch ← Body.scratch
    Body.lift (newIndex perform scratch object key value)
  | .binary op dst lhs rhs =>
    let lhs ← Body.getSlot lhs.toNat
    let rhs ← Body.getSlot rhs.toNat
    Body.setIndex (pc + 1)
    let scratch ← Body.scratch
    Body.setSlot dst.toNat (← Body.lift (arith perform scratch op lhs rhs))
  | .unary .not dst src => Body.setSlot dst.toNat (.bool !(← Body.getSlot src.toNat).truthy)
  | .unary op dst src =>
    let operand ← Body.getSlot src.toNat
    Body.setIndex (pc + 1)
    let scratch ← Body.scratch
    Body.setSlot dst.toNat (← Body.lift (unary perform scratch op operand))
  | .jump dest => return .goto dest.toNat
  | .test cond when dest =>
    if (← Body.getSlot cond.toNat).truthy == when then return .goto dest.toNat
  | .call func args _ =>
    let target ← Body.getSlot func.toNat
    let (first, last) ← span (← Body.lift (orOverflow (Reg.next? func))) args
    Body.call perform (pc + 1) target first (last - first)
    complete proto pc
  | .tailCall func args =>
    let target ← Body.getSlot func.toNat
    let values ← spanValues (← Body.lift (orOverflow (Reg.next? func))) args
    Body.lift (requestTailCall target values)
    return .done
  | .ret base count =>
    let values ← spanValues base.toNat count
    Body.lift (giveAll values)
    return .done
  | .vararg dst count =>
    let varargs := (← Body.frame).varargs
    match count with
    | .fixed n => Body.setSlots dst.toNat (padded n.toNat varargs)
    | .open =>
      Body.setSlots dst.toNat varargs
      Body.setTop (dst.toNat + varargs.length)
  return .goto (pc + 1)

/-- Runs operations from `pc` on. -/
def loop (perform : Perform F S) (function : FnId) (proto : Proto) : Nat → Nat → Body F S Unit
  | 0, _ => throw .exhausted
  | fuel + 1, pc => do
    match proto.code[pc]? with
    | none => Body.lift (giveAll [])
    | some op =>
      match ← execute perform function proto pc op with
      | .goto pc => loop perform function proto fuel pc
      | .done => pure ()

/-- Gives the captured ones among the slots below `n` their cells, from `slot` on. -/
def reifyParams (proto : Proto) (slot : Nat) : Nat → Body F S Unit
  | 0 => pure ()
  | n + 1 => do
    if proto.isReified slot then
      let view := (← Body.frame).view
      let _ ← Body.lift (reify view slot)
    reifyParams proto (slot + 1) n

/-- Runs a body from the segment that its frame names. -/
def run (fuel : Nat) (perform : Perform F S) (function : FnId) (proto : Proto) :
    Body F S Unit := do
  let index := (← Body.frame).index
  if index = 0 then
    reifyParams proto 0 proto.params
    loop perform function proto fuel 0
  else
    complete proto (index - 1)
    loop perform function proto fuel index

end Interpreter

end ScriptCore
