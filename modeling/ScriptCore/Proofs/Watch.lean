import ScriptCore.Engine

/-!
# A watched run

`Watch.perform` carries out requests as `Machine.perform` does and knows what is in progress: the
calls, the resumes and the non-resumable calls, innermost first. It checks a property of the
machine whenever a function is entered or left, and another one where a yield suspends, and goes
on with the alarm instead where a check fails. So a property holds at every such point of a run
if the watched run is the run itself, whatever the alarm does.
-/

namespace ScriptCore

open Machine

/-- Something in progress. -/
inductive Activity
  /-- A function is called or re-entered. -/
  | call (f : FnId)
  /-- A coroutine is resumed. -/
  | resume (co : CoId)
  /-- A value is called that cannot yield. -/
  | boundary
deriving DecidableEq

/-- What is checked along a run. -/
structure Watch (F S : Type) where
  /-- Holds whenever a function is entered or left. -/
  within : List Activity → Machine F S → Prop
  /-- Holds of what is in progress where a yield suspends, but for the yield function itself. -/
  yields : List Activity → Prop
  /-- Takes the place of what fails a check. -/
  alarm : M F S Unit

/-- An ending that a script can bring about. -/
def Unwind.Regular : Unwind → Prop
  | .suspend _ | .fault _ => True
  | .overflow | .exhausted => False

/-- A regular ending, with the state that it leaves. -/
def EndsIn {σ α : Type} : EStateM.Result Unwind σ α → σ → Prop
  | .ok _ t, u => u = t
  | .error e t, u => e.Regular ∧ u = t

namespace Watch

open scoped Classical

noncomputable section

variable {F S : Type} (W : Watch F S)

/-- Checks on entering and on leaving a step. -/
def around (acts : List Activity) (x : M F S Unit) : M F S Unit := fun m =>
  if W.within acts m then
    match x m with
    | .ok u m' => if W.within acts m' then .ok u m' else W.alarm m'
    | .error e m' => if e.Regular → W.within acts m' then .error e m' else W.alarm m'
  else W.alarm m

/-- Checks where a step suspends. -/
def suspending (acts : List Activity) (x : M F S Unit) : M F S Unit := fun m =>
  match x m with
  | .error (.suspend s) m' =>
    if W.yields acts then .error (.suspend s) m' else W.alarm m'
  | r => r

/-- Yields the successor of the argument, then of every value received. -/
def echo (acts : List Activity) : Body F S Unit := do
  let v ← Routine.echoInput (← Body.frame).index
  let next ← Body.lift (Routine.successor v)
  Body.setIndex 1
  Body.lift (W.suspending acts (yieldValues [next]))

variable [HostBody F S]

/-- Runs a library function. -/
def builtin (P : List Activity → Perform F S) (acts : List Activity) (b : Builtin) (args : View) :
    M F S Unit :=
  match b with
  | .tostring => Base.tostring (P (.boundary :: acts)) args
  | .print => Base.print (P (.boundary :: acts)) args
  | .resume => do
    let co ← Args.checkCoroutine args 1 "resume"
    Coroutines.resume (P (.resume co :: acts)) args
  | .yield => W.suspending acts.tail (Coroutines.yield args)
  | b => runBuiltin (P acts) b args

/-- Runs a protected call, with its handler behind a boundary. -/
def protectedCall (P : List Activity → Perform F S) (acts : List Activity) (f : FnId)
    (p : Protection) (args : View) : M F S Unit := do
  let target ← Args.checkAny args 1 p.name
  let (handler, first) ← match p with
    | .plain => pure (.nil, 1)
    | .handler => do pure (← Args.checkAny args 2 p.name, 2)
  let window := args.child first
  let ending ← attempt (P acts (.call window target))
  Base.settle (P (.boundary :: acts)) f p window handler ending

/-- Re-enters a protected call, with its handler behind a boundary. -/
def resumeProtected (P : List Activity → Perform F S) (acts : List Activity) (f : FnId)
    (p : Protection) (view : View) (index : Nat) (saved : Saved) (inner : List Link)
    (values : List Val) : M F S Unit := do
  if index ≠ 1 then violate (.noSegment p.name index)
  let handler := saved.varargs.headD .nil
  let ending ← attempt (P acts (.replay inner values view))
  Base.settle (P (.boundary :: acts)) f p view handler ending

/-- Runs a hand-written body. -/
def routine (P : Perform F S) (acts : List Activity) (fuel : Nat) (r : Routine) : Body F S Unit :=
  match r with
  | .echo => W.echo acts
  | r => r.run fuel P

/-- Runs a function. -/
def function (P : List Activity → Perform F S) (acts : List Activity) (fuel : Nat) (f : FnId)
    (args : View) : M F S Unit := do
  match ← functionAt f with
  | .closure proto _ => enterBody f proto.layout (Interpreter.run fuel (P acts) f proto) args
  | .builtin b => W.builtin P acts b args
  | .protectedCall p => protectedCall P acts f p args
  | .wrapped co => Coroutines.callWrapped (P (.resume co :: acts)) co args
  | .routine r => enterBody f r.layout (W.routine (P acts) acts fuel r) args
  | .host h => HostBody.invoke (P acts) f h args

/-- Re-enters a function. -/
def reentry (P : List Activity → Perform F S) (acts : List Activity) (fuel : Nat) (link : Link)
    (inner : List Link) (values : List Val) (window : View) : M F S Unit := do
  let ⟨f, index, saved⟩ := link
  let callable ← functionAt f
  match callable with
  | .closure proto _ =>
    reenterBody (P acts) f proto.name proto.layout (Interpreter.run fuel (P acts) f proto) window
      index saved inner values
  | .routine r =>
    reenterBody (P acts) f r.name r.layout (W.routine (P acts) acts fuel r) window index saved inner
      values
  | .protectedCall p => resumeProtected P acts f p window index saved inner values
  | .host h => HostBody.reenter (P acts) f h window index saved inner values
  | .builtin _ | .wrapped _ => violate (.notReenterable callable.name index)

/-- The functions of the heap, with each call noted and checked. -/
def runner (P : List Activity → Perform F S) (acts : List Activity) (fuel : Nat) : Runner F S where
  run f args :=
    let acts := .call f :: acts
    W.around acts (W.function P acts fuel f args)
  rerun link inner values window :=
    let acts := .call link.function :: acts
    W.around acts (W.reentry P acts fuel link inner values window)

/-- Carries out requests while some activities are in progress. -/
def perform : Nat → List Activity → Perform F S
  | 0, _, _ => throw .exhausted
  | fuel + 1, acts, request => step (W.runner (perform fuel) acts fuel) fuel request

end

end Watch

end ScriptCore
