import ScriptCore.Dispatch

/-!
# Resuming and yielding

`resume` runs a coroutine until it yields, returns or fails. A fresh one calls its body; a
suspended one replays its links, and the arguments become the results of the pending yield.

While a coroutine runs, the one that resumed it is normal. The running one has a boundary count
of its own.
-/

namespace ScriptCore

/-- How a resumed coroutine handed control back. -/
inductive Outcome
  | yielded | returned
deriving DecidableEq, Repr

def Outcome.name : Outcome → String
  | .yielded => "yielded"
  | .returned => "returned"

namespace Machine

variable {F S : Type}

/-- Changes the state of a coroutine and reports it. -/
def transition (co : CoId) (next : Coroutine) : M F S Unit := do
  let before ← coroutineAt co
  record fun _ => .status before.status next.status
  putCoroutine co next

/-- Changes the state of a coroutine, if there is one. -/
def transition? (co : Option CoId) (next : Coroutine) : M F S Unit :=
  match co with
  | some co => transition co next
  | none => pure ()

/-- Runs a suspended coroutine by a given step. -/
def resumeWith (co : CoId) (nargs : Nat) (run : M F S Unit) : M F S Outcome := do
  putCoroutine co .running
  record fun _ => .resume nargs
  let (outer, boundaries) ← switchTo (some co) 0
  transition? outer .normal
  let ending ← attempt run
  let _ ← switchTo outer boundaries
  transition? outer .running
  match ending with
  | .ok () =>
    transition co .dead
    return .returned
  | .error (.suspend s) =>
    transition co (.suspended s.chain)
    giveAll s.values
    return .yielded
  | .error (.fault f) =>
    transition co .dead
    fail f
  | .error e => throw e

/-- Runs a coroutine until it yields, returns or fails; the values it hands back are results. -/
def resume (perform : Perform F S) (window : View) (co : CoId) (args : List Val) :
    M F S Outcome := do
  match ← coroutineAt co with
  | .dead => fail (.coroutine .dead)
  | .running | .normal => fail (.coroutine .active)
  | .fresh body => resumeWith co args.length (callWith perform window body args)
  | .suspended chain => resumeWith co args.length (perform (.replay chain args window))

end Machine

end ScriptCore
