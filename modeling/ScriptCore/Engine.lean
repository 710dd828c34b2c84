import ScriptCore.Interpreter
import ScriptCore.Library.Base
import ScriptCore.Library.Coroutines
import ScriptCore.Library.Debug
import ScriptCore.Routine

/-!
# Carrying out requests

A call resolves its target, shapes the arguments to the arity of the function, counts the call
in, runs the function, and counts the call out. Then the tail calls that it asks for are carried
out one after another in the same window, each without nesting (`drain`).

A replay re-enters the outermost link, hands it the links below, and drains in the same way.
With no link left, the values of the resume become the results of the suspended operation.

`step` carries out one request; a `Runner` says how it runs functions. `perform` ties the knot by
fuel, which bounds the nesting and, at every level, the length of each loop.
-/

namespace ScriptCore

/-- What a host says of its own functions. -/
class HostBody (F : Type) (S : outParam Type) extends HostFunction F where
  /-- Runs a function on the live slots of a window. -/
  invoke : Perform F S → FnId → F → View → M F S Unit
  /-- Re-enters a function at an index with a saved frame, inner links, and the values that the
  innermost link receives. -/
  reenter : Perform F S → FnId → F → View → Nat → Saved → List Link → List Val → M F S Unit

/-- The host without functions. -/
instance : HostBody Empty PUnit where
  name := nofun
  arity := nofun
  isNative := nofun
  text := nofun
  upvalue? := nofun
  invoke := fun _ _ => nofun
  reenter := fun _ _ => nofun

namespace Machine

variable {F S : Type} [HostBody F S]

/-- Runs a library function. -/
def runBuiltin (perform : Perform F S) (b : Builtin) (args : View) : M F S Unit :=
  match b with
  | .assert => Base.assert args
  | .error => Base.error args
  | .select => Base.select args
  | .type => Base.type args
  | .tostring => Base.tostring perform args
  | .print => Base.print perform args
  | .rawequal => Base.rawequal args
  | .rawget => Base.rawget args
  | .rawset => Base.rawset args
  | .rawlen => Base.rawlen args
  | .getmetatable => Base.getmetatable args
  | .setmetatable => Base.setmetatable args
  | .create => Coroutines.create args
  | .resume => Coroutines.resume perform args
  | .yield => Coroutines.yield args
  | .status => Coroutines.status args
  | .running => Coroutines.running
  | .isyieldable => Coroutines.isyieldable
  | .wrap => Coroutines.wrap args
  | .rawGetmetatable => Debug.getmetatable args
  | .rawSetmetatable => Debug.setmetatable args
  | .getupvalue => Debug.getupvalue args
  | .setupvalue => Debug.setupvalue args
  | .upvalueid => Debug.upvalueid args
  | .upvaluejoin => Debug.upvaluejoin args
  | .add3 => Routine.add3 args
  | .counterAdd => Routine.counterAdd args

/-- Runs a function on the live slots of a window. -/
def runFunction (fuel : Nat) (perform : Perform F S) (f : FnId) (args : View) : M F S Unit := do
  match ← functionAt f with
  | .closure proto _ => enterBody f proto.layout (Interpreter.run fuel perform f proto) args
  | .builtin b => runBuiltin perform b args
  | .protectedCall p => Base.protectedCall perform f p args
  | .wrapped co => Coroutines.callWrapped perform co args
  | .routine r => enterBody f r.layout (r.run fuel perform) args
  | .host h => HostBody.invoke perform f h args

/-- Re-enters a function that a suspension left. -/
def reenterFunction (fuel : Nat) (perform : Perform F S) (link : Link) (inner : List Link)
    (values : List Val) (window : View) : M F S Unit := do
  let ⟨f, index, saved⟩ := link
  let callable ← functionAt f
  match callable with
  | .closure proto _ =>
    reenterBody perform f proto.name proto.layout (Interpreter.run fuel perform f proto) window
      index saved inner values
  | .routine r =>
    reenterBody perform f r.name r.layout (r.run fuel perform) window index saved inner values
  | .protectedCall p => Base.resumeProtected perform f p window index saved inner values
  | .host h => HostBody.reenter perform f h window index saved inner values
  | .builtin _ | .wrapped _ => violate (.notReenterable callable.name index)

/-- How functions are run and re-entered. -/
structure Runner (F S : Type) where
  /-- Runs a function on the live slots of a window. -/
  run : FnId → View → M F S Unit
  /-- Re-enters a function that a suspension left, with the links below it. -/
  rerun : Link → List Link → List Val → View → M F S Unit

/-- The functions of the heap, with nested requests left to `perform`. -/
def runner (fuel : Nat) (perform : Perform F S) : Runner F S :=
  ⟨runFunction fuel perform, reenterFunction fuel perform⟩

/-- Brings the arguments of a function to its arity. -/
def shape (arity : Arity) (window : View) : M F S View :=
  match arity with
  | .fixed n => fit window n
  | .variadic => pure window

/-- Calls a value once, without the tail call that it may ask for. -/
def invoke (r : Runner F S) (window : View) (target : Val) : M F S Unit := do
  let (f, window) ← resolve window target (← config).maxMetaChain
  let callable ← functionAt f
  let window ← shape callable.arity window
  let m ← get
  record fun _ => .invoke callable.name window.top m.thread.depth
  enter
  ensuring (r.run f window) leave

/-- Carries out pending tail calls in a window until a call leaves values. -/
def drain (r : Runner F S) (window : View) : Nat → M F S Unit
  | 0 => throw .exhausted
  | n + 1 => do
    match ← onResults Results.takeTailCall with
    | none => pure ()
    | some target =>
      let args := (← get).thread.results.values
      let window ← load window args
      record fun _ => .tailCall target.kind args.length
      invoke r window target
      drain r window n

/-- Re-enters the outermost of some links, without the tail call that it may ask for. -/
def reenter (r : Runner F S) (link : Link) (inner : List Link) (values : List Val)
    (window : View) : M F S Unit := do
  let m ← get
  record fun _ => .replay (m.heap.function link.function).name link.index inner.length
  enter
  ensuring (r.rerun link inner values window) leave

/-- Carries out a request. -/
def step (r : Runner F S) (fuel : Nat) : Request → M F S Unit
  | .call window target => do
    invoke r window target
    drain r window fuel
  | .replay [] values _ => giveAll values
  | .replay (link :: inner) values window => do
    reenter r link inner values window
    drain r window fuel

/-- Carries out requests, with fuel for the nesting and for the loops. -/
def perform : Nat → Perform F S
  | 0, _ => throw .exhausted
  | fuel + 1, request => step (runner fuel (perform fuel)) fuel request

end Machine

end ScriptCore
