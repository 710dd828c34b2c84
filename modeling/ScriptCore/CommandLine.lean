import ScriptCore.Report
import ScriptCore.Settings
import ScriptCore.Text.Blank

/-!
# The command line

The program lists the scenarios, runs them, or shows the limits in force. A file with limits can
be named anywhere on the line; the one named after the command wins.

* `Invocation.ofArgs` reads the line.
* `Plan.of` turns an invocation into what is to be shown or run, up to the runs themselves.
-/

namespace ScriptCore

/-- What the program is asked to do. -/
inductive Command
  | list
  | run (keys : List String) (iterations : Nat) (json : Bool)
  | config
deriving DecidableEq, Repr

/-- What a command line says. -/
inductive Invocation
  | command (config : Option String) (c : Command)
  | version
  | help
  /-- The line cannot be understood. -/
  | misuse
deriving DecidableEq, Repr

/-! ## Helpers for arguments -/

/-- What is wrong with a path that leads upwards. -/
def pathComplaint : String :=
  "Parent directory components ('..') are not allowed in file paths."

/-- A path without parts that lead upwards. -/
def checkPath (raw : String) : Except String String :=
  if (raw.splitOn "/").contains ".." then .error pathComplaint else .ok raw

/-- Whether a setting turns tracing on. -/
def traceEnabled (raw : String) : Bool :=
  let word := Blank.trim raw
  !(word.isEmpty || Blank.sameWord word "0" || Blank.sameWord word "false" ||
    Blank.sameWord word "off")

/-- The filter that a setting names; plain consent names none. -/
def traceFilter? (raw : String) : Option String :=
  let word := Blank.trim raw
  if word.isEmpty || Blank.sameWord word "1" || Blank.sameWord word "true" ||
      Blank.sameWord word "on" then none
  else some word

/-- A count of runs: a positive number of 32 bits. -/
def iterations? (s : String) : Option Nat :=
  let cs := s.toList
  let digits := if cs.head? = some '+' then cs.drop 1 else cs
  if digits.isEmpty || !digits.all Char.isDigit then none
  else
    let n := digits.foldl (fun n c => 10 * n + (c.toNat - 48)) 0
    if 1 ≤ n ∧ n < twoPow 32 then some n else none

/-! ## Reading the line -/

/-- Whether an argument can be the value of the option before it. -/
def isValue (s : String) : Bool := !s.startsWith "-" || s == "-"

/-- Whether an argument is a group of short options with this one first. -/
def isGroup (s option : String) : Bool := s.startsWith option

/-- An option with its value in one argument. -/
def inlineValue? (s option : String) : Option String :=
  if s.startsWith (option ++ "=") then some (s.drop (option.length + 1)).toString else none

/-- What was read of the options of a command. -/
structure Options where
  config : Option String
  keys : List String
  iterations : Option Nat
  json : Bool

namespace Options

def empty : Options := ⟨none, [], none, false⟩

/-- Takes a file with limits; it can be named once. -/
def setConfig? (o : Options) (path : String) : Option Options :=
  if o.config.isSome || (checkPath path).toOption.isNone then none
  else some { o with config := some path }

/-- Takes a count of runs; it can be given once. -/
def setIterations? (o : Options) (text : String) : Option Options :=
  if o.iterations.isSome then none
  else do return { o with iterations := some (← iterations? text) }

end Options

namespace Invocation

/-- Goes on with new options, if they are well. -/
def andThen (o : Option Options) (k : Options → Invocation) : Invocation :=
  match o with
  | some o => k o
  | none => .misuse

/-- Reads the options of `list` and `config`. -/
def readPlain (o : Options) (k : Options → Invocation) : List String → Invocation
  | [] => k o
  | "--" :: rest => if rest.isEmpty then k o else .misuse
  | "--help" :: _ => .help
  | "--config" :: value :: rest =>
    if isValue value then
      match o.setConfig? value with
      | some o => readPlain o k rest
      | none => .misuse
    else .misuse
  | arg :: rest =>
    match inlineValue? arg "--config" with
    | some value =>
      match o.setConfig? value with
      | some o => readPlain o k rest
      | none => .misuse
    | none => if isGroup arg "-h" then .help else .misuse

/-- The count of runs that is part of its own option. -/
def attachedCount? (arg : String) : Option String :=
  match inlineValue? arg "--iterations" with
  | some value => some value
  | none =>
    match inlineValue? arg "-n" with
    | some value => some value
    | none =>
      if arg.startsWith "-n" && 2 < arg.length then some (arg.drop 2).toString else none

/-- Reads the options of `run`. -/
def readRun (o : Options) (k : Options → Invocation) : List String → Invocation
  | [] => k o
  | "--" :: rest => k { o with keys := o.keys ++ rest }
  | "--help" :: _ => .help
  | "--json" :: rest => if o.json then .misuse else readRun { o with json := true } k rest
  | [arg] =>
    if isValue arg then k { o with keys := o.keys ++ [arg] }
    else if isGroup arg "-h" then .help
    else
      match inlineValue? arg "--config", attachedCount? arg with
      | some value, _ => andThen (o.setConfig? value) k
      | none, some value => andThen (o.setIterations? value) k
      | none, none => .misuse
  | arg :: value :: rest =>
    if arg = "--config" then
      if isValue value then
        match o.setConfig? value with
        | some o => readRun o k rest
        | none => .misuse
      else .misuse
    else if arg = "-n" ∨ arg = "--iterations" then
      if isValue value then
        match o.setIterations? value with
        | some o => readRun o k rest
        | none => .misuse
      else .misuse
    else if isValue arg then readRun { o with keys := o.keys ++ [arg] } k (value :: rest)
    else if isGroup arg "-h" then .help
    else
      match inlineValue? arg "--config", attachedCount? arg with
      | some path, _ =>
        match o.setConfig? path with
        | some o => readRun o k (value :: rest)
        | none => .misuse
      | none, some count =>
        match o.setIterations? count with
        | some o => readRun o k (value :: rest)
        | none => .misuse
      | none, none => .misuse

/-- The commands that can be asked about. -/
def helpTopics : List String := ["list", "run", "config", "help"]

/-- Reads a command and its options. -/
def readCommand (config : Option String) : List String → Invocation
  | "list" :: rest => readPlain .empty (fun o => .command (o.config <|> config) .list) rest
  | "config" :: rest => readPlain .empty (fun o => .command (o.config <|> config) .config) rest
  | "run" :: rest =>
    readRun .empty
      (fun o => .command (o.config <|> config) (.run o.keys (o.iterations.getD 1) o.json)) rest
  | ["help"] => .help
  | ["help", topic] => if helpTopics.contains topic then .help else .misuse
  | _ => .misuse

/-- Reads a command line. -/
def read (o : Options) : List String → Invocation
  | "--help" :: _ => .help
  | "--version" :: _ => .version
  | "--config" :: value :: rest =>
    if isValue value then
      match o.setConfig? value with
      | some o => read o rest
      | none => .misuse
    else .misuse
  | arg :: rest =>
    match inlineValue? arg "--config" with
    | some value =>
      match o.setConfig? value with
      | some o => read o rest
      | none => .misuse
    | none =>
      if isGroup arg "-h" then .help
      else if isGroup arg "-V" then .version
      else readCommand o.config (arg :: rest)
  | [] => .misuse

def ofArgs (args : List String) : Invocation := read .empty args

end Invocation

/-! ## From the line to the runs -/

/-- The name and the number of the program. -/
def versionLine : String := "tidal 0.1.0"

/-- A short account of the line. -/
def helpText : String :=
  "Scenario runner for the tidal call/return core\n\n" ++
  "Usage: tidal [OPTIONS] <COMMAND>\n\n" ++
  "Commands:\n" ++
  "  list    List scenario keys and titles\n" ++
  "  run     Run scenarios and verify their results\n" ++
  "  config  Print the effective runtime config as TOML\n" ++
  "  help    Print this message or the help of the given subcommand(s)\n\n" ++
  "Options:\n" ++
  "      --config <FILE>  Runtime config (TOML); defaults apply to missing fields\n" ++
  "  -h, --help           Print help\n" ++
  "  -V, --version        Print version\n"

/-- What an invocation comes to. -/
inductive Plan
  /-- A text to show. -/
  | show (text : String)
  | run (config : Config) (scenarios : List Scenario) (iterations : Nat) (json : Bool)
  /-- The line cannot be understood. -/
  | misuse
  | failure (words : String)

/-- What is wrong with a scenario that does not exist. -/
def unknownScenario (key : String) : String := s!"unknown scenario '{key}' (see \x60tidal list\x60)"

/-- The scenarios with some keys in the order given, all of them if there are no keys. -/
def selectScenarios (keys : List String) : Except String (List Scenario) :=
  if keys.isEmpty then .ok Scenario.all
  else keys.mapM fun key =>
    match Scenario.ofKey? key with
    | some s => .ok s
    | none => .error (unknownScenario key)

/-- The limits in force; `read` gives the text of a file. -/
def loadConfig (read : String → Option String) : Option String → Except String Config
  | none => .ok .default
  | some path =>
    match read path with
    | none => .error s!"Failed to read config '{path}'"
    | some source =>
      match Config.ofText? source with
      | some config => .ok config
      | none => .error s!"in '{path}'"

namespace Plan

/-- A line for each scenario. -/
def listing : String :=
  String.join (Scenario.all.map fun s => Report.keyColumn s.key ++ " " ++ s.title ++ "\n")

/-- What a command comes to with limits in force. -/
def ofCommand (config : Config) : Command → Plan
  | .list => .show listing
  | .config => .show config.text
  | .run keys iterations json =>
    match selectScenarios keys with
    | .ok scenarios => .run config scenarios iterations json
    | .error words => .failure words

/-- What an invocation comes to. -/
def of (read : String → Option String) : Invocation → Plan
  | .misuse => .misuse
  | .version => .show (versionLine ++ "\n")
  | .help => .show helpText
  | .command path command =>
    match loadConfig read path with
    | .ok config => ofCommand config command
    | .error words => .failure words

end Plan

end ScriptCore
