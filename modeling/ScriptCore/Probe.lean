import ScriptCore.Engine

/-!
# Probes

Host functions by which a host watches and steers a run from inside: functions that yield, that
ask for tail calls, that break the contract, that call without the right to yield, and bodies
that suspend at known places. Relays and stages call a next value and log what happens to the
call; a log entry holds the values of the moment it was made.
-/

namespace ScriptCore

/-! ## The log -/

/-- A saved slot and, for a cell, its value at that moment. -/
inductive SlotImage
  | value (v : Val)
  | cell (v : Val)

/-- A link with its slots as they were. -/
structure LinkImage where
  function : String
  index : Nat
  slots : List SlotImage
  top : Nat
  varargs : List Val

/-- An entry of the log. -/
inductive LogEntry
  | note (args : List Val)
  | enterRelay (name : String) (args : List Val) (depth : Nat)
  | enterStage (name : String)
  | replay (name : String) (index inner depth : Nat)
  | finish (label : Option String)
  | suspend (name : String) (values : List Val) (chain : List LinkImage)

/-- The log of a host, in order. -/
abbrev Log := Array LogEntry

/-! ## The functions -/

/-- A host function that watches or steers a run. -/
inductive Probe
  /-- Yields its arguments. -/
  | yield
  /-- Returns its arguments. -/
  | pack
  /-- Returns its arguments, as many as its arity. -/
  | fixed (n : Nat)
  /-- Calls its first argument without the right to yield. -/
  | guard
  /-- Calls its first argument and leaves no link. -/
  | plaincall
  /-- Asks for a tail call of its first argument. -/
  | tail
  /-- Breaks the contract. -/
  | broken
  /-- Returns the status of the running coroutine, the depth, and the right to yield. -/
  | inspect
  /-- Logs its arguments and returns them. -/
  | note
  /-- Suspends with its arguments, inside a coroutine or not. -/
  | suspend
  /-- Resumes its first argument with the running coroutine. -/
  | resumeArg
  /-- Returns the status of its argument. -/
  | statusArg
  /-- Resumes the running coroutine. -/
  | selfResume
  /-- Yields twice its argument, and returns one more than what it receives. -/
  | doubler (source : Val)
  /-- Yields its argument and the next number, and returns the sum of what it receives. -/
  | twoYields (source : Val)
  /-- Returns the shape of its own frame. -/
  | frameInfo
  /-- Shows a captured variable that cannot be bound again. -/
  | frozen (cell : CellId)
  /-- Calls the next value and logs how the call ends; it can be re-entered. -/
  | relay (name : String) (next : Val)
  /-- A body that calls the next value with its own name. -/
  | stage (name : String) (next : Val)

namespace Probe

def name : Probe → String
  | .yield => "yield"
  | .pack => "pack"
  | .fixed n => s!"fixed{n}"
  | .guard => "guard"
  | .plaincall => "plaincall"
  | .tail => "tail"
  | .broken => "broken"
  | .inspect => "inspect"
  | .note => "note"
  | .suspend => "suspend"
  | .resumeArg => "resume_arg"
  | .statusArg => "status_arg"
  | .selfResume => "self_resume"
  | .doubler _ => "doubler"
  | .twoYields _ => "two_yields"
  | .frameInfo => "frame_info"
  | .frozen _ => "?"
  | .relay name _ | .stage name _ => name

/-- The shape of the frame, for probes that are bodies. -/
def layout? : Probe → Option Layout
  | .doubler _ => some (.of 1 false 1)
  | .twoYields _ => some (.of 1 false 2)
  | .frameInfo => some (.of 2 true 1)
  | .stage .. => some (.of 0 false 1)
  | _ => none

def arity : Probe → Arity
  | .fixed n => .ofParams n
  | .inspect | .selfResume => .fixed 0
  | .statusArg => .fixed 1
  | .resumeArg => .fixed 2
  | p => match p.layout? with | some l => l.arity | none => .variadic

def isNative : Probe → Bool
  | .note | .doubler _ | .twoYields _ | .frameInfo | .frozen _ | .relay .. | .stage .. => false
  | _ => true

/-- The written form of a probe. -/
def text (p : Probe) : String :=
  match p with
  | .frozen _ => "Frozen"
  | .note => "Note"
  | .relay .. => "Relay"
  | .doubler _ => "Compiled(Doubler)"
  | .twoYields _ => "Compiled(TwoYields)"
  | .frameInfo => "Compiled(FrameInfo)"
  | .stage .. => "Compiled(Stage)"
  | p => "NativeFunction \x7b name: " ++ Quoted.quote p.name ++ ", arity: " ++ p.arity.text ++
      " \x7d"

def upvalue? : Probe → Nat → Option (String × CellId)
  | .frozen cell, 0 => some ("ice", cell)
  | _, _ => none

instance : HostFunction Probe := ⟨name, arity, isNative, text, upvalue?⟩

open Machine Args

/-- Adds an entry to the log. -/
def log (e : LogEntry) : M Probe Log Unit := modify fun m => { m with host := m.host.push e }

/-- A link as it is now. -/
def image (heap : Heap Probe) (l : Link) : LinkImage :=
  { function := (heap.function l.function).name
    index := l.index
    slots := l.saved.slots.map fun
      | .value v => .value v
      | .cell c => .cell (heap.cell c)
    top := l.saved.top
    varargs := l.saved.varargs }

/-- A chain as it is now, innermost link first. -/
def images (heap : Heap Probe) (chain : List Link) : List LinkImage :=
  (chain.map (image heap)).reverse

/-- Calls a value through a function that leaves no link. -/
def callRest (perform : Perform Probe Log) (function : String) (args : View) (boundary : Bool) :
    M Probe Log Unit := do
  let target ← checkAny args 1 function
  let window := args.child 1
  if boundary then callNonresumable perform window target function
  else perform (.call window target)

/-- Logs how the call of a relay ended, and leaves a link where it was suspended. -/
def settle (self : FnId) (name : String) (ending : Except Unwind Unit) : M Probe Log Unit := do
  match ending with
  | .ok () => log (.finish (some name))
  | .error (.suspend s) =>
    log (.suspend name s.values (images (← get).heap s.chain))
    suspendWith self 1 .empty s
  | .error e => throw e

/-! ## Bodies -/

/-- Refuses a segment that a body does not have. -/
def noSegment (index : Nat) : Body Probe Log Unit :=
  Body.lift (violate (.host s!"no segment {index}"))

/-- A sum as far as numbers have one. -/
def sum (a b : Val) : M Probe Log Val := do
  return (← orFail (BinOp.add.apply a b)).getD .nil

/-- The integer in the first slot. -/
def firstInteger (name : String) : Body Probe Log Int64 := do
  let view := (← Body.frame).view
  Body.lift (checkInt view 1 name)

/-- Runs the body of a probe from the segment that its frame names. -/
def runBody (perform : Perform Probe Log) (p : Probe) : Body Probe Log Unit := do
  let frame ← Body.frame
  match p with
  | .doubler source =>
    if frame.index = 0 then
      let x ← firstInteger p.name
      let y ← Body.lift (orOverflow (Integer.checkedAdd x x))
      Body.callWith perform 1 source [.int y]
    else if frame.index ≠ 1 then noSegment frame.index
    Body.lift do give (← sum (← result 0) (.int 1))
  | .twoYields source =>
    let first ← firstInteger p.name
    if frame.index = 0 then Body.callWith perform 1 source [.int first]
    if frame.index ≤ 1 then
      Body.setSlot 1 (← Body.lift (result 0))
      let second ← Body.lift (orOverflow (Integer.checkedAdd first 1))
      Body.callWith perform 2 source [.int second]
    let received ← Body.getSlot 1
    Body.lift do give (← sum received (← result 0))
  | .frameInfo =>
    let slots ← Body.slotValues 0 frame.slots
    Body.lift (giveAll ([Val.ofNat frame.slots, Val.ofNat frame.index, Val.ofNat frame.view.top,
      Val.ofNat frame.varargs.length] ++ slots))
  | .stage name next =>
    if frame.index = 0 then
      Body.lift (log (.enterStage name))
      Body.setSlot 0 (.str name)
      Body.callWith perform 1 next [.str name]
    else if frame.index ≠ 1 then noSegment frame.index
    let label ← Body.getSlot 0
    Body.lift do
      log (.finish label.toString?)
      giveAll [← result 0, label]
  | _ => pure ()

/-! ## Calls -/

/-- Runs a probe that is no body. -/
def runNative (perform : Perform Probe Log) (self : FnId) (args : View) (p : Probe) :
    M Probe Log Unit := do
  match p with
  | .yield => yieldValues (← valuesFrom args 0)
  | .pack | .fixed _ => giveAll (← valuesFrom args 0)
  | .guard => callRest perform p.name args true
  | .plaincall => callRest perform p.name args false
  | .tail =>
    let target ← checkAny args 1 p.name
    requestTailCall target (← valuesFrom args 1)
  | .broken => violate (.host "broken native")
  | .inspect =>
    let m ← get
    let status := match m.thread.current with
      | some co => (m.heap.coroutine co).status.name
      | none => "none"
    giveAll [.str status, Val.ofNat m.thread.depth, .bool (← isYieldable)]
  | .note =>
    let values ← valuesFrom args 0
    log (.note values)
    giveAll values
  | .suspend => throw (.suspend ⟨← valuesFrom args 0, []⟩)
  | .resumeArg =>
    let co ← checkCoroutine args 1 p.name
    let self := match (← get).thread.current with
      | some co => Val.co co
      | none => .nil
    let _ ← resume perform (args.child 2) co [self]
  | .statusArg =>
    let co ← checkCoroutine args 1 p.name
    give (.str (← coroutineAt co).status.name)
  | .selfResume =>
    match (← get).thread.current with
    | some co =>
      let _ ← resume perform (args.child 0) co []
    | none => violate (.host "no running coroutine")
  | .frozen cell => give (← cellAt cell)
  | .relay name next =>
    let values ← valuesFrom args 0
    log (.enterRelay name values (← get).thread.depth)
    settle self name (← attempt (callWith perform args next values))
  | _ => pure ()

/-- Runs a probe on the live slots of a window. -/
def invoke (perform : Perform Probe Log) (self : FnId) (p : Probe) (args : View) :
    M Probe Log Unit :=
  match p.layout? with
  | some layout => enterBody self layout (runBody perform p) args
  | none => runNative perform self args p

/-- Re-enters a probe that a suspension left. -/
def reenter (perform : Perform Probe Log) (self : FnId) (p : Probe) (view : View) (index : Nat)
    (saved : Saved) (inner : List Link) (values : List Val) : M Probe Log Unit := do
  match p.layout?, p with
  | some layout, p =>
    reenterBody perform self p.name layout (runBody perform p) view index saved inner values
  | none, .relay name _ =>
    log (.replay name index inner.length (← get).thread.depth)
    settle self name (← attempt (perform (.replay inner values view)))
  | none, p => violate (.notReenterable p.name index)

instance : HostBody Probe Log := ⟨invoke, reenter⟩

end Probe

end ScriptCore
