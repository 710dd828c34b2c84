import ScriptCore.Machine

/-!
# Steps of the machine

The primitive steps from which every operation is made: reading and writing the objects of the
heap, the result channel, the stack and the counters of the thread. A step on the stack reports
the growth that it causes.
-/

namespace ScriptCore

namespace Machine

variable {F S α : Type}

/-! ## Ending a step early -/

/-- Ends with a fault. -/
@[inline] def fail (f : Fault) : M F S α := throw (.fault f)

/-- Ends with a broken contract. -/
@[inline] def violate (v : Violation) : M F S α := fail (.contract v)

/-- A result, or the fault that prevents it. -/
@[inline] def orFail : Except Fault α → M F S α
  | .ok a => pure a
  | .error f => fail f

/-- A result, or the broken contract that prevents it. -/
@[inline] def orViolate : Except Violation α → M F S α
  | .ok a => pure a
  | .error v => violate v

/-- A result of machine arithmetic. -/
@[inline] def orOverflow : Option α → M F S α
  | some a => pure a
  | none => throw .overflow

/-- A result of the check of a body. -/
@[inline] def orReject : Except Rejection α → M F S α
  | .ok a => pure a
  | .error (.violation v) => violate v
  | .error .overflow => throw .overflow

/-- How a step ends, as a value. -/
@[inline] def attempt (x : M F S α) : M F S (Except Unwind α) := fun m =>
  match x m with
  | .ok a m => .ok (.ok a) m
  | .error e m => .ok (.error e) m

/-- Does a step and then changes the machine, however the step ends. -/
@[inline] def ensuring (x : M F S α) (after : Machine F S → Machine F S) : M F S α := fun m =>
  match x m with
  | .ok a m => .ok a (after m)
  | .error e m => .error e (after m)

/-! ## Reports -/

/-- Reports an event, if events are recorded. -/
@[inline] def record (e : Unit → TraceEvent) : M F S Unit := fun m =>
  match m.trace with
  | none => .ok () m
  | some events => .ok () { m with trace := some (events.push (e ())) }

/-- Notes a write, if writes are recorded. -/
@[inline] def note (w : Write) : M F S Unit := fun m =>
  match m.journal with
  | none => .ok () m
  | some writes => .ok () { m with journal := some (writes.push w) }

/-- Prints a text. -/
@[inline] def emit (s : String) : M F S Unit := modify fun m => { m with output := m.output ++ s }

/-! ## Objects -/

@[inline] def tableAt (t : TableId) : M F S Table := do return (← get).heap.table t

@[inline] def cellAt (c : CellId) : M F S Val := do return (← get).heap.cell c

@[inline] def functionAt (f : FnId) : M F S (Callable F) := do return (← get).heap.function f

@[inline] def coroutineAt (c : CoId) : M F S Coroutine := do return (← get).heap.coroutine c

/-- Changes the objects and gives a result. -/
@[inline] def onHeap (f : Heap F → α × Heap F) : M F S α := modifyGet fun m =>
  let ⟨heap, world, thread, output, trace, journal, host⟩ := m
  let (a, heap) := f heap
  (a, ⟨heap, world, thread, output, trace, journal, host⟩)

def newTable : M F S TableId := onHeap fun ⟨tables, cells, functions, coroutines⟩ =>
  (⟨tables.size⟩, ⟨tables.push .empty, cells, functions, coroutines⟩)

def newCell (v : Val) : M F S CellId := onHeap fun ⟨tables, cells, functions, coroutines⟩ =>
  (⟨cells.size⟩, ⟨tables, cells.push v, functions, coroutines⟩)

def newFunction (f : Callable F) : M F S FnId :=
  onHeap fun ⟨tables, cells, functions, coroutines⟩ =>
    (⟨functions.size⟩, ⟨tables, cells, functions.push f, coroutines⟩)

def newCoroutine (body : Val) : M F S CoId := onHeap fun ⟨tables, cells, functions, coroutines⟩ =>
  (⟨coroutines.size⟩, ⟨tables, cells, functions, coroutines.push (.fresh body)⟩)

def putCell (c : CellId) (v : Val) : M F S Unit := do
  note (.cell c v)
  onHeap fun ⟨tables, cells, functions, coroutines⟩ =>
    ((), ⟨tables, cells.setIfInBounds c.index v, functions, coroutines⟩)

def putFunction (f : FnId) (c : Callable F) : M F S Unit :=
  onHeap fun ⟨tables, cells, functions, coroutines⟩ =>
    ((), ⟨tables, cells, functions.setIfInBounds f.index c, coroutines⟩)

def putCoroutine (c : CoId) (x : Coroutine) : M F S Unit :=
  onHeap fun ⟨tables, cells, functions, coroutines⟩ =>
    ((), ⟨tables, cells, functions, coroutines.setIfInBounds c.index x⟩)

/-- Changes a table in place. -/
@[inline] def onTable (t : TableId) (f : Table → Table) : M F S Unit :=
  onHeap fun ⟨tables, cells, functions, coroutines⟩ =>
    ((), ⟨tables.modify t.index f, cells, functions, coroutines⟩)

/-- Writes an entry of a table, if the key can be one. -/
def setTable (t : TableId) (key value : Val) : M F S Unit :=
  match key.toKey with
  | .ok k => do
    note (.entry t k value)
    onTable t (·.insert k value)
  | .error e => fail (.invalidKey e)

/-- Writes the entry of a table at a string. -/
def setField (t : TableId) (name : String) (value : Val) : M F S Unit := do
  note (.entry t (.str name) value)
  onTable t (·.insert (.str name) value)

/-- Writes entries of a table at consecutive indices. -/
def setList (t : TableId) (first : Int) (values : List Val) : M F S Unit := do
  note (.entries t first values)
  onTable t (·.setList first values)

def setMetatable (t : TableId) (meta? : Option TableId) : M F S Unit := do
  note (.metatable t meta?)
  onTable t fun ⟨array, hash, _⟩ => ⟨array, hash, meta?⟩

/-- A new function value. -/
def newFunctionVal (f : Callable F) : M F S Val := do return .fn (← newFunction f)

/-! ## The shared world -/

@[inline] def config : M F S Config := do return (← get).world.config

@[inline] def globals : M F S TableId := do return (← get).world.globals

/-- The metatable that applies to a value. -/
def metatableOf (v : Val) : M F S (Option TableId) := do
  let m ← get
  match v with
  | .table t => return (m.heap.table t).metatable
  | v => return m.world.typeMetatable v.kind

def setTypeMetatable (k : Kind) (meta? : Option TableId) : M F S Unit := modify fun m =>
  { m with world := { m.world with
      typeMetatable := fun k' => if k' = k then meta? else m.world.typeMetatable k' } }

/-- The handler of a value for an event. -/
def metamethod (v : Val) (e : Event) : M F S (Option Val) := do
  match ← metatableOf v with
  | none => return none
  | some t =>
    let handler := (← tableAt t).getStr e.key
    return if handler.isNil then none else some handler

/-! ## The result channel -/

/-- Changes the channel and gives a result. -/
@[inline] def onResults (f : Results → α × Results) : M F S α := modifyGet fun m =>
  let ⟨heap, world, ⟨results, stack, depth, boundaries, current⟩, output, trace, journal, host⟩ := m
  let (a, results) := f results
  (a, ⟨heap, world, ⟨results, stack, depth, boundaries, current⟩, output, trace, journal, host⟩)

@[inline] def setChannel (r : Results) : M F S Unit := onResults fun _ => ((), r)

/-- Makes values the results. -/
@[inline] def giveAll (values : List Val) : M F S Unit := setChannel (.ofValues values)

/-- Makes one value the results. -/
@[inline] def give (v : Val) : M F S Unit := giveAll [v]

/-- Asks for a tail call. -/
@[inline] def requestTailCall (target : Val) (args : List Val) : M F S Unit :=
  setChannel (.tailCall target args)

/-- The result at an index. -/
def result (i : Nat) : M F S Val := do orViolate ((← get).thread.results.get i)

/-- All results. -/
def resultList : M F S (List Val) := do orViolate (← get).thread.results.read

/-- Puts a value in front of the results. -/
def prependResult (v : Val) : M F S Unit := do
  setChannel (← orViolate ((← get).thread.results.prepend v))

/-- The results; they leave the channel. -/
def takeResults : M F S (List Val) := do
  let (values, channel) ← orViolate (← get).thread.results.take
  setChannel channel
  return values

/-! ## The stack -/

/-- Changes the stack and gives a result. -/
@[inline] def onStack (f : Stack → α × Stack) : M F S α := fun m =>
  let ⟨heap, world, ⟨results, stack, depth, boundaries, current⟩, output, trace, journal, host⟩ := m
  let before := stack.capacity
  let (a, stack) := f stack
  let after := stack.capacity
  let trace := match trace with
    | none => none
    | some events => some (if before < after then events.push (.growStack before after) else events)
  .ok a ⟨heap, world, ⟨results, stack, depth, boundaries, current⟩, output, trace, journal, host⟩

@[inline] def slotAt (v : View) (i : Nat) : M F S Slot := do
  return v.slot (← get).thread.stack i

/-- The value of a slot. -/
@[inline] def valueAt (v : View) (i : Nat) : M F S Val := do
  let m ← get
  return v.get m.thread.stack m.heap.cells i

def valuesOf (v : View) (first last : Nat) : M F S (List Val) := do
  let m ← get
  return v.values m.thread.stack m.heap.cells first last

def valuesFrom (v : View) (first : Nat) : M F S (List Val) := valuesOf v first v.top

@[inline] def putSlot (v : View) (i : Nat) (slot : Slot) : M F S Unit :=
  onStack fun s => ((), v.put s i slot)

@[inline] def putValue (v : View) (i : Nat) (x : Val) : M F S Unit := putSlot v i (.value x)

/-- Writes a slot, through its cell where it has one. -/
def store (v : View) (i : Nat) (x : Val) : M F S Unit := do
  match ← slotAt v i with
  | .cell c => putCell c x
  | .value _ => putValue v i x

/-- Gives a slot a fresh cell with its value. -/
def reify (v : View) (i : Nat) : M F S CellId := do
  let c ← newCell (← valueAt v i)
  putSlot v i (.cell c)
  return c

@[inline] def growTo (v : View) (n : Nat) : M F S Unit := onStack fun s => ((), v.growTo s n)

@[inline] def setTop (v : View) (n : Nat) : M F S View := onStack (v.setTop · n)

@[inline] def fit (v : View) (n : Nat) : M F S View := onStack (v.fit · n)

@[inline] def load (v : View) (values : List Val) : M F S View := onStack (v.load · values)

@[inline] def insertFront (v : View) (x : Val) : M F S View := onStack (v.insertFront · x)

@[inline] def clearRange (v : View) (first last : Nat) : M F S Unit :=
  onStack fun s => ((), v.clearRange s first last)

@[inline] def restore (v : View) (saved : List Slot) : M F S Unit :=
  onStack fun s => ((), v.restore s saved)

def snapshot (v : View) (n : Nat) : M F S (List Slot) := do
  return v.snapshot (← get).thread.stack n

/-! ## Counters -/

/-- Changes the thread. -/
@[inline] def onThread (f : Thread → Thread) : M F S Unit := modify fun m =>
  { m with thread := f m.thread }

/-- Counts a call in, unless the depth is at its limit. -/
def enter : M F S Unit := do
  let m ← get
  if m.world.config.maxCallDepth ≤ m.thread.depth then fail (.stackOverflow m.thread.depth)
  onThread fun t => { t with depth := t.depth + 1 }

/-- Counts a call out. -/
def leave (m : Machine F S) : Machine F S :=
  { m with thread := { m.thread with depth := m.thread.depth - 1 } }

/-- Counts a non-resumable call in. -/
def enterBoundary : M F S Unit := onThread fun t => { t with boundaries := t.boundaries + 1 }

/-- Counts a non-resumable call out. -/
def leaveBoundary (m : Machine F S) : Machine F S :=
  { m with thread := { m.thread with boundaries := m.thread.boundaries - 1 } }

/-- Makes a coroutine the running one; tells the one before and its boundary count. -/
def switchTo (co : Option CoId) (boundaries : Nat) : M F S (Option CoId × Nat) := do
  let t := (← get).thread
  onThread fun t => { t with current := co, boundaries := boundaries }
  return (t.current, t.boundaries)

/-- Whether a yield could suspend here. -/
def isYieldable : M F S Bool := do
  let t := (← get).thread
  return t.current.isSome && t.boundaries == 0

/-- Yields values out of the running coroutine. -/
def yieldValues (values : List Val) : M F S α := do
  let t := (← get).thread
  if t.current.isNone then fail .yieldOutsideCoroutine
  if t.boundaries ≠ 0 then fail (.yieldAcrossBoundary "native call")
  throw (.suspend ⟨values, []⟩)

end Machine

end ScriptCore
