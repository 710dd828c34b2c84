import ScriptCore.Args
import ScriptCore.Assembly
import ScriptCore.Catalog
import ScriptCore.CommandLine
import ScriptCore.Config
import ScriptCore.Coroutine
import ScriptCore.Dispatch
import ScriptCore.Engine
import ScriptCore.Fault
import ScriptCore.Frame
import ScriptCore.Interpreter
import ScriptCore.Library.Base
import ScriptCore.Library.Coroutines
import ScriptCore.Library.Debug
import ScriptCore.Library.Standard
import ScriptCore.Machine
import ScriptCore.Main
import ScriptCore.Number.Arithmetic
import ScriptCore.Number.Double
import ScriptCore.Number.Integer
import ScriptCore.Number.Notation
import ScriptCore.Number.Power
import ScriptCore.Number.Shortest
import ScriptCore.Op
import ScriptCore.Operator
import ScriptCore.Probe
import ScriptCore.Proofs.Agrees
import ScriptCore.Proofs.Aligned
import ScriptCore.Proofs.AlignedBodies
import ScriptCore.Proofs.AlignedCalls
import ScriptCore.Proofs.AlignedNatives
import ScriptCore.Proofs.AlignedResumes
import ScriptCore.Proofs.CoroutineOrder
import ScriptCore.Proofs.Dialogue
import ScriptCore.Proofs.Follows
import ScriptCore.Proofs.Fuel
import ScriptCore.Proofs.InStep
import ScriptCore.Proofs.Isolation
import ScriptCore.Proofs.Keeping
import ScriptCore.Proofs.Leftovers
import ScriptCore.Proofs.Natives
import ScriptCore.Proofs.NoLeaks
import ScriptCore.Proofs.Operands
import ScriptCore.Proofs.Parameters
import ScriptCore.Proofs.PausedBodies
import ScriptCore.Proofs.PausedCalls
import ScriptCore.Proofs.PausedFunctions
import ScriptCore.Proofs.Planning
import ScriptCore.Proofs.Regime
import ScriptCore.Proofs.Registers
import ScriptCore.Proofs.Replays
import ScriptCore.Proofs.Requests
import ScriptCore.Proofs.Resumes
import ScriptCore.Proofs.ResumptionChains
import ScriptCore.Proofs.Routines
import ScriptCore.Proofs.Stack
import ScriptCore.Proofs.Transparency
import ScriptCore.Proofs.Turn
import ScriptCore.Proofs.Twin
import ScriptCore.Proofs.Validation
import ScriptCore.Proofs.Violations
import ScriptCore.Proofs.Watch
import ScriptCore.Proofs.Windows
import ScriptCore.Proto
import ScriptCore.Registry
import ScriptCore.Report
import ScriptCore.Results
import ScriptCore.Routine
import ScriptCore.Scenario
import ScriptCore.Session
import ScriptCore.Settings
import ScriptCore.Stack
import ScriptCore.Step
import ScriptCore.Table
import ScriptCore.Text.Address
import ScriptCore.Text.Blank
import ScriptCore.Text.Digit
import ScriptCore.Text.Lines
import ScriptCore.Text.Quoted
import ScriptCore.Text.Visible
import ScriptCore.Toml.Document
import ScriptCore.Toml.Parser
import ScriptCore.Toml.Scalar
import ScriptCore.Trace
import ScriptCore.Value
import ScriptCore.Proofs.TableOperations
import ScriptCore.Proofs.Tables
import ScriptCore.Proofs.Counters
import ScriptCore.Proofs.Cells
import ScriptCore.Proofs.ProtectedCalls
import ScriptCore.Proofs.Kindred
import ScriptCore.Proofs.Relays
import ScriptCore.Proofs.SpelledBodies
import ScriptCore.Proofs.KindredNatives
import ScriptCore.Proofs.KindredResumes
import ScriptCore.Proofs.ChannelReads
import ScriptCore.Proofs.Trampoline
import ScriptCore.Proofs.Boundaries
import ScriptCore.Proofs.Completions
import ScriptCore.Proofs.Finishing
import ScriptCore.Proofs.CallDepth
import ScriptCore.Proofs.SpelledCalls
import ScriptCore.Proofs.TailCalls
import ScriptCore.Proofs.InvalidReentries
import ScriptCore.Proofs.HandlerChains
import ScriptCore.Proofs.Entries
import ScriptCore.Proofs.Doubles
import ScriptCore.Proofs.Keys
import ScriptCore.Proofs.Variables
import ScriptCore.Proofs.Grounded
import ScriptCore.Proofs.WideFrames
import ScriptCore.Proofs.DoubleValues
import ScriptCore.Proofs.Comparisons
import ScriptCore.Proofs.GroundedNatives
import ScriptCore.Proofs.GroundedBodies
import ScriptCore.Proofs.GroundedRuns
import ScriptCore.Proofs.UpvalueSharing
import ScriptCore.Proofs.Deeper
import ScriptCore.Proofs.DeeperBodies
import ScriptCore.Proofs.DeeperRuns
import ScriptCore.Proofs.FrontEnds
import ScriptCore.Proofs.Division
import ScriptCore.Proofs.Shifts
import ScriptCore.Proofs.StraightLine
import ScriptCore.Proofs.Recursion
import ScriptCore.Proofs.TailLoops
import ScriptCore.Proofs.Capacity
import ScriptCore.Proofs.Building
import ScriptCore.Proofs.Rows
import ScriptCore.Proofs.StagedSums
import ScriptCore.Proofs.StagedResumes
import ScriptCore.Proofs.HandledSums
import ScriptCore.Proofs.CallOutcomes
import ScriptCore.Proofs.RetainedObjects
import ScriptCore.Proofs.EchoRounds
import ScriptCore.Proofs.ScenarioRuns
