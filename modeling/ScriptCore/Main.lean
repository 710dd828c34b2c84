import ScriptCore.CommandLine

/-!
# The program

Reads the file with limits, runs the scenarios with a clock, and prints.
-/

namespace ScriptCore.Program

/-- A number of nanoseconds in thousandths of a unit, with one place after the point. -/
def tenths (nanos unit : Nat) : String :=
  let n := (nanos * 10 + unit / 2) / unit
  s!"{n / 10}.{n % 10}"

/-- A field of a report as JSON. -/
def entryJson (totalNanos meanNanos : Nat) : Report.Entry → String
  | .text s => Quoted.json s
  | .count n => toString n
  | .truth b => toString b
  | .absent => "null"
  | .time unit => if unit == "ms" then tenths totalNanos 1000000 else tenths meanNanos 1000

/-- A report as JSON. -/
def reportJson (r : Report) (nanos : Nat) : String :=
  let mean := if r.iterations = 0 then 0 else nanos / r.iterations
  let fields := r.fields.map fun (name, e) =>
    "    " ++ Quoted.json name ++ ": " ++ entryJson nanos mean e
  "  \x7b\n" ++ ",\n".intercalate fields ++ "\n  \x7d"

/-- A report as a row. -/
def reportRow (r : Report) (nanos : Nat) : String :=
  let mean := if r.iterations = 0 then 0 else nanos / r.iterations
  r.row (Report.keyColumn r.key) (Report.timeColumn (tenths mean 1000))

/-- Runs scenarios one after another with a clock. -/
def runAll (config : Config) (iterations : Nat) :
    List Prepared → Machine Empty PUnit → IO (List (Report × Nat))
  | [], _ => return []
  | p :: rest, m => do
    let before ← IO.monoNanosNow
    match Report.make Machine.carryOut config p iterations m with
    | .ok r m =>
      let after ← IO.monoNanosNow
      return (r, after - before) :: (← runAll config iterations rest m)
    | .error _ m => runAll config iterations rest m

/-- The text of a file that can be read. -/
def readText (path : String) : IO (Option String) := do
  try
    return some (← IO.FS.readFile path)
  catch _ =>
    return none

end ScriptCore.Program

open ScriptCore Program in
def main (args : List String) : IO UInt32 := do
  let invocation := Invocation.ofArgs args
  let source ← match invocation with
    | .command (some path) _ => readText path
    | _ => pure none
  match Plan.of (fun _ => source) invocation with
  | .show text =>
    IO.print text
    return 0
  | .misuse =>
    IO.eprint helpText
    return 2
  | .failure words =>
    IO.eprintln ("Error: " ++ words)
    return 1
  | .run config scenarios iterations json =>
    let machine : Machine Empty PUnit := .start .empty config none ⟨⟩
    match Machine.prepareAll scenarios machine with
    | .error _ _ => return 1
    | .ok prepared machine =>
      let reports ← runAll config iterations prepared machine
      if json then
        IO.println ("[\n" ++ ",\n".intercalate (reports.map fun (r, n) => reportJson r n) ++ "\n]")
      else
        for (r, n) in reports do IO.println (reportRow r n)
      match Report.failure? (reports.map (·.1)) with
      | some words =>
        IO.eprintln ("Error: " ++ words)
        return 1
      | none => return 0
