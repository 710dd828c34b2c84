import ScriptCore.Step

/-!
# Frames of compiled bodies

A compiled body runs in segments. A frame remembers the index of the segment to enter: 0 at
first, and before every operation that may suspend the index of the segment that takes its
outcome.

* `enterBody` shapes the arguments into a fresh frame and runs the body.
* A suspension that leaves the body saves the frame as a link (`suspendFrame`).
* `reenterBody` restores a saved frame, replays the inner links above it, and then runs the body
  at the saved index, with the outcome of the inner operation in the result channel.
-/

namespace ScriptCore

/-- What the machine is asked to do from within a step. -/
inductive Request
  /-- Call a value with the live slots of a window, and every tail call it asks for. -/
  | call (window : View) (target : Val)
  /-- Re-enter the outermost of some links, which are to continue with some values. -/
  | replay (links : List Link) (values : List Val) (window : View)

/-- How requests are carried out. -/
abbrev Perform (F S : Type) := Request → M F S Unit

/-- The activation of a compiled body. -/
structure Frame where
  view : View
  /-- The segment to enter. -/
  index : Nat
  /-- The slots of the body. -/
  slots : Nat
  varargs : List Val

/-- A frame and the machine under it. -/
structure Active (F S : Type) where
  frame : Frame
  machine : Machine F S

/-- A step of a body. -/
abbrev Body (F S : Type) := EStateM Unwind (Active F S)

namespace Body

variable {F S α : Type}

/-- A step of the machine leaves the frame alone. -/
@[inline] def lift (x : M F S α) : Body F S α := fun s =>
  let ⟨frame, machine⟩ := s
  match x machine with
  | .ok a m => .ok a ⟨frame, m⟩
  | .error e m => .error e ⟨frame, m⟩

instance : MonadLift (M F S) (Body F S) := ⟨lift⟩

@[inline] def frame : Body F S Frame := do return (← get).frame

@[inline] def onFrame (f : Frame → Frame) : Body F S Unit := modify fun s =>
  { s with frame := f s.frame }

/-- Remembers the segment that takes the outcome of the next operation. -/
@[inline] def setIndex (i : Nat) : Body F S Unit := onFrame fun f => { f with index := i }

@[inline] def getSlot (i : Nat) : Body F S Val := do
  let f ← frame
  lift (Machine.valueAt f.view i)

@[inline] def setSlot (i : Nat) (v : Val) : Body F S Unit := do
  let f ← frame
  lift (Machine.putValue f.view i v)

/-- Writes values to the slots from `i` on. -/
def setSlots (i : Nat) : List Val → Body F S Unit
  | [] => pure ()
  | v :: vs => do setSlot i v; setSlots (i + 1) vs

/-- Makes exactly `n` slots live. -/
def setTop (n : Nat) : Body F S Unit := do
  let f ← frame
  let view ← lift (Machine.setTop f.view n)
  onFrame fun f => { f with view := view }

/-- The values of the slots `first … last - 1`. -/
def slotValues (first last : Nat) : Body F S (List Val) := do
  let f ← frame
  lift (Machine.valuesOf f.view first last)

/-- An empty window above the slots of a frame. -/
def scratchOf (f : Frame) : M F S View := Machine.setTop (f.view.child f.slots) 0

/-- An empty window above the slots of the frame. -/
def scratch : Body F S View := do
  let f ← frame
  lift (scratchOf f)

/-- Calls `target` with the `nargs` slots from `base` on in place; `resumeAt` takes the
outcome. -/
def call (perform : Perform F S) (resumeAt : Nat) (target : Val) (base nargs : Nat) :
    Body F S Unit := do
  setIndex resumeAt
  let f ← frame
  let window ← lift (Machine.setTop (f.view.child base) nargs)
  lift (perform (.call window target))

/-- Calls `target` with arguments staged above the frame; `resumeAt` takes the outcome. -/
def callWith (perform : Perform F S) (resumeAt : Nat) (target : Val) (args : List Val) :
    Body F S Unit := do
  setIndex resumeAt
  let window ← lift (Machine.load (← scratch) args)
  lift (perform (.call window target))

end Body

namespace Machine

variable {F S : Type} [HostFunction F]

/-- The name of a function. -/
def nameOf (f : FnId) : M F S String := do return (← functionAt f).name

/-- Adds a link for a frame that a suspension leaves, and goes on leaving. -/
def suspendWith (function : FnId) (index : Nat) (saved : Saved) (s : Suspension) :
    M F S Unit := do
  let m ← get
  record fun _ => .suspended (m.heap.function function).name index (s.chain.length + 1)
  throw (.suspend ⟨s.values, ⟨function, index, saved⟩ :: s.chain⟩)

/-- Saves a frame that a suspension leaves. -/
def suspendFrame (function : FnId) (frame : Frame) (s : Suspension) : M F S Unit := do
  let slots ← snapshot frame.view frame.slots
  suspendWith function frame.index ⟨slots, frame.view.top, frame.varargs⟩ s

/-- Runs a body on a frame. -/
def runBody (function : FnId) (body : Body F S Unit) (frame : Frame) : M F S Unit := fun m =>
  match body ⟨frame, m⟩ with
  | .ok () s => .ok () s.machine
  | .error (.suspend suspension) s => suspendFrame function s.frame suspension s.machine
  | .error e s => .error e s.machine

/-- The fresh frame of a body on the live slots of a window. -/
def openFrame (layout : Layout) (args : View) : M F S Frame := do
  let varargs ← if layout.vararg then valuesFrom args layout.params else pure []
  let view ← fit args layout.params
  clearRange view layout.params layout.slots
  return ⟨view, 0, layout.slots, varargs⟩

/-- Enters a body with the live slots of a window as arguments. -/
def enterBody (function : FnId) (layout : Layout) (body : Body F S Unit) (args : View) :
    M F S Unit := do
  runBody function body (← openFrame layout args)

/-- A saved frame, laid out again from the base of a window on. -/
def reopenFrame (layout : Layout) (view : View) (index : Nat) (saved : Saved) : M F S Frame := do
  restore view saved.slots
  let view ← setTop view saved.top
  return ⟨view, index, layout.slots, saved.varargs⟩

/-- Goes on with a body whose inner links have ended. -/
def continueBody (function : FnId) (body : Body F S Unit) (frame : Frame) :
    Except Unwind Unit → M F S Unit
  | .ok () => runBody function body frame
  | .error (.suspend s) => suspendFrame function frame s
  | .error e => throw e

/-- Re-enters a suspended body: the inner links first, then the body where it stood. -/
def reenterBody (perform : Perform F S) (function : FnId) (name : String) (layout : Layout)
    (body : Body F S Unit) (view : View) (index : Nat) (saved : Saved) (inner : List Link)
    (values : List Val) : M F S Unit := do
  if index = 0 then violate (.entrySegment name)
  let frame ← reopenFrame layout view index saved
  let scratch ← Body.scratchOf frame
  continueBody function body frame (← attempt (perform (.replay inner values scratch)))

end Machine

end ScriptCore
