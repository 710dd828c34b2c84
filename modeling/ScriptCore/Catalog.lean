import ScriptCore.Probe
import ScriptCore.Scenario

/-!
# Values by name

The probes and the objects of the scenarios, each made anew from its name.
-/

namespace ScriptCore.Catalog

open Machine

/-- The probe with a name, with the objects that it works with. -/
def probe? : String → M Probe Log (Option Probe)
  | "yield" => return some .yield
  | "pack" => return some .pack
  | "guard" => return some .guard
  | "plaincall" => return some .plaincall
  | "tail" => return some .tail
  | "broken" => return some .broken
  | "inspect" => return some .inspect
  | "note" => return some .note
  | "suspend" => return some .suspend
  | "resume_arg" => return some .resumeArg
  | "status_arg" => return some .statusArg
  | "self_resume" => return some .selfResume
  | "doubler" => return some (.doubler (← newFunctionVal (.host .yield)))
  | "two_yields" => return some (.twoYields (← newFunctionVal (.host .yield)))
  | "frame_info" => return some .frameInfo
  | "frozen" => return some (.frozen (← newCell (.str "cold")))
  | name => return do
    let n ← (name.drop 5).toNat?
    if name.startsWith "fixed" then some (.fixed n) else none

/-- The function of the scenarios with a name. -/
def routine? : String → M Probe Log (Option (Callable Probe))
  | "add3" => return some (.builtin .add3)
  | "recurse_fixed" => return some (.routine (.recurse false))
  | "recurse_packed" => return some (.routine (.recurse true))
  | "tail_step" => return some (.routine .tailStep)
  | "bounce" => return some (.routine .bounce)
  | "shared_sum" => return some (.routine (.sharedSum (← newFunctionVal (.builtin .add3))))
  | "echo" => return some (.routine .echo)
  | "recurse_proto" => return some (.closure Bodies.recurse #[])
  | "count_proto" => return some (.closure Bodies.count #[])
  | "meta_add_proto" => return some (.closure Bodies.metaAdd #[])
  | _ => return none

/-- The value with a name. -/
def value? (name : String) : M Probe Log (Option Val) := do
  if name == "counter" then return some (← Scenario.counterObject)
  match ← routine? name, ← probe? name with
  | some c, _ => return some (← newFunctionVal c)
  | none, some p => return some (← newFunctionVal (.host p))
  | none, none => return none

end ScriptCore.Catalog
