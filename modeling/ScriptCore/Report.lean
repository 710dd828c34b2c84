import ScriptCore.Library.Standard
import ScriptCore.Scenario

/-!
# Reports on scenarios

A report runs a scenario some times on one machine with the standard modules and stops at the
first run that is no success. The table of reports has a row for each; as fields, a report is
what a structured listing shows of it.
-/

namespace ScriptCore

/-- What came of the runs of a scenario. -/
structure Report where
  key : String
  title : String
  /-- The runs that succeeded. -/
  iterations : Nat
  /-- The text of the last value. -/
  value : Option String
  stackSlots : Nat
  error : Option String

namespace Report

def ok (r : Report) : Bool := r.error.isNone

/-- A text filled up with blanks on the right. -/
def padRight (s : String) (width : Nat) : String :=
  s ++ String.ofList (List.replicate (width - s.length) ' ')

/-- A text filled up with blanks on the left. -/
def padLeft (s : String) (width : Nat) : String :=
  String.ofList (List.replicate (width - s.length) ' ') ++ s

/-- The first column of a row. -/
def keyColumn (key : String) : String := padRight key 22

/-- The column of the mean time of a run. -/
def timeColumn (mean : String) : String := padLeft mean 12

/-- What a row says after the time of a run. -/
def outcomeColumn (r : Report) : String :=
  "us/iter  x" ++ padRight (toString r.iterations) 6 ++ " => " ++ r.value.getD "nil"

/-- A row of the table; `key` and `time` are its first two columns. -/
def row (r : Report) (key time : String) : String :=
  match r.error with
  | none => key ++ " " ++ time ++ " " ++ r.outcomeColumn
  | some error => keyColumn r.key ++ " FAILED: " ++ error

/-- The value of a field. -/
inductive Entry
  | text (s : String)
  | count (n : Nat)
  | truth (b : Bool)
  | absent
  /-- A time in some unit, which differs from run to run. -/
  | time (unit : String)

def optional (s : Option String) : Entry := (s.map .text).getD .absent

/-- The fields of a report, in order. -/
def fields (r : Report) : List (String × Entry) :=
  [("key", .text r.key), ("title", .text r.title), ("iterations", .count r.iterations),
   ("total_ms", .time "ms"), ("mean_us", .time "us"), ("value", optional r.value),
   ("stack_slots", .count r.stackSlots), ("ok", .truth r.ok), ("error", optional r.error)]

/-- The line on reports that are no success, if there are any. -/
def failure? (reports : List Report) : Option String :=
  let failed := (reports.filter (!·.ok)).length
  if failed = 0 then none
  else some s!"{failed} of {reports.length} scenario(s) failed verification"

variable {F S : Type} [HostFunction F]

open Machine

/-- Runs a scenario up to `n` more times. -/
def repeatRun (perform : Perform F S) (p : Prepared) (r : Report) : Nat → M F S Report
  | 0 => return r
  | n + 1 => do
    match ← runPrepared perform p with
    | .ok result =>
      let text := (← get).heap.text result.value
      repeatRun perform p { r with
        iterations := r.iterations + 1
        value := some text
        stackSlots := result.stackSlots } n
    | .error e => return { r with error := some (e.message (← get).heap) }

/-- Runs a scenario on a new state with the standard modules. -/
def make (perform : Perform F S) (config : Config) (p : Prepared) (iterations : Nat) :
    M F S Report := do
  restart config
  let _ ← Standard.installAll
  let slots := (← get).thread.stack.capacity
  repeatRun perform p ⟨p.scenario.key, p.scenario.title, 0, none, slots, none⟩ iterations

end Report

end ScriptCore
