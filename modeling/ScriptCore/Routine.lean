import ScriptCore.Args
import ScriptCore.Frame
import ScriptCore.Operator

/-!
# Hand-written bodies

Bodies against the frame interface that exercise calls, tail calls, shared windows and yields,
and the two native functions that they work with.

* `recurse` computes `100 + n` by `n` plain calls.
* `tailStep` and `bounce` compute `acc + n` by `n` tail calls.
* `sharedSum` sums `0 + 1, 1 + 1, …` through calls staged in its own slots 3 to 5; the partial
  sum is in slot 2 and the count in slot 1.
* `echo` yields the successor of every value it receives.
-/

namespace ScriptCore.Routine

open Machine

variable {F S : Type}

/-- The integer that a value stands for. -/
def integer (v : Val) (body : String) : M F S Int64 :=
  match v.toInt? with
  | some n => pure n
  | none => violate (.notInteger body v.kind)

/-- The successor of a number. -/
def successor (v : Val) : M F S Val := do
  match ← orFail (BinOp.add.apply v (.int 1)) with
  | some w => return w
  | none => fail (.operand .arithmetic v.kind)

/-- The predecessor of an integer that has one. -/
def predecessor (n : Int64) : M F S Val := do
  return .int (← orOverflow (Integer.checkedSub n 1))

/-- The arguments of the counting body. -/
def recurseArgs (packed : Bool) (frame : Frame) : Body F S (Val × Val) := do
  if packed then return (frame.varargs.getD 0 .nil, frame.varargs.getD 1 .nil)
  else return (← Body.getSlot 0, ← Body.getSlot 1)

/-- `f(self, n)` is 100 at 0, else one more than `self(self, n - 1)`. -/
def runRecurse (perform : Perform F S) (packed : Bool) : Body F S Unit := do
  let name := (Routine.recurse packed).name
  let frame ← Body.frame
  if frame.index = 0 then
    let (self, n) ← recurseArgs packed frame
    let n ← Body.lift (integer n name)
    if n = 0 then
      Body.lift (give (.int 100))
      return
    Body.callWith perform 1 self [self, ← Body.lift (predecessor n)]
  else if frame.index ≠ 1 then
    Body.lift (violate (.noSegment name frame.index))
  Body.lift do give (← successor (← result 0))

/-- `step(self, n, acc)` is `acc` at 0, else tail-calls `self(self, n - 1, acc + 1)`. -/
def runTailStep : Body F S Unit := do
  let self ← Body.getSlot 0
  let n ← Body.getSlot 1
  let n ← Body.lift (integer n Routine.tailStep.name)
  let acc ← Body.getSlot 2
  Body.lift do
    if n = 0 then give acc
    else
      let acc ← successor acc
      requestTailCall self [self, ← predecessor n, acc]

/-- `bounce(self, other, n, acc)` is `acc` at 0, else tail-calls
`other(other, self, n - 1, acc + 1)`. -/
def runBounce : Body F S Unit := do
  let n ← Body.getSlot 2
  let n ← Body.lift (integer n Routine.bounce.name)
  let self ← Body.getSlot 0
  let other ← Body.getSlot 1
  let acc ← Body.getSlot 3
  Body.lift do
    if n = 0 then give acc
    else
      let acc ← successor acc
      requestTailCall other [other, self, ← predecessor n, acc]

/-- Takes the sum of a step and counts the step. -/
def takeSum (i : Int64) : Body F S Unit := do
  Body.setSlot 2 (← Body.lift (result 0))
  Body.setSlot 1 (.int (← Body.lift (orOverflow (Integer.checkedAdd i 1))))

/-- The steps of the sum from the count in slot 1 up to `n`. -/
def sumFrom (perform : Perform F S) (add3 : Val) (n : Int64) : Nat → Body F S Unit
  | 0 => throw .exhausted
  | fuel + 1 => do
    let i ← Body.lift (integer (← Body.getSlot 1) (Routine.sharedSum add3).name)
    let acc ← Body.getSlot 2
    if n ≤ i then Body.lift (give acc)
    else
      Body.setSlots 3 [acc, .int i, .int 1]
      Body.call perform 1 add3 3 3
      takeSum i
      sumFrom perform add3 n fuel

/-- Where the summing body starts, or takes the outcome of its pending step. -/
def sumEntry (add3 : Val) (index : Nat) : Body F S Unit := do
  let name := (Routine.sharedSum add3).name
  match index with
  | 0 => Body.setSlots 1 [.int 0, .int 0]
  | 1 =>
    let sum ← Body.lift (result 0)
    let i ← Body.lift (integer (← Body.getSlot 1) name)
    Body.setSlot 2 sum
    Body.setSlot 1 (.int (← Body.lift (orOverflow (Integer.checkedAdd i 1))))
  | other => Body.lift (violate (.noSegment name other))

/-- `sum(n)` adds up what `add3(acc, i, 1)` gives for `i` below `n`. -/
def runSharedSum (fuel : Nat) (perform : Perform F S) (add3 : Val) : Body F S Unit := do
  sumEntry add3 (← Body.frame).index
  let n ← Body.lift (integer (← Body.getSlot 0) (Routine.sharedSum add3).name)
  sumFrom perform add3 n fuel

/-- The argument, or the value received. -/
def echoInput (index : Nat) : Body F S Val :=
  match index with
  | 0 => Body.getSlot 0
  | 1 => Body.lift (result 0)
  | other => Body.lift (violate (.noSegment Routine.echo.name other))

/-- Yields the successor of the argument, then of every value received. -/
def runEcho : Body F S Unit := do
  let v ← echoInput (← Body.frame).index
  let next ← Body.lift (successor v)
  Body.setIndex 1
  Body.lift (yieldValues [next])

/-- Runs a body from the segment that its frame names. -/
def run (fuel : Nat) (perform : Perform F S) : Routine → Body F S Unit
  | .recurse packed => runRecurse perform packed
  | .tailStep => runTailStep
  | .bounce => runBounce
  | .sharedSum add3 => runSharedSum fuel perform add3
  | .echo => runEcho

/-! ## Native functions -/

/-- The sum of three integers. -/
def add3 (args : View) : M F S Unit := do
  let a ← integer (← valueAt args 0) "add3"
  let b ← integer (← valueAt args 1) "add3"
  let sum ← orOverflow (Integer.checkedAdd a b)
  let c ← integer (← valueAt args 2) "add3"
  give (.int (← orOverflow (Integer.checkedAdd sum c)))

/-- The second operand and one more. -/
def counterAdd (args : View) : M F S Unit := do
  let acc ← Args.checkInt args 2 "__add"
  give (.int (← orOverflow (Integer.checkedAdd acc 1)))

end ScriptCore.Routine
