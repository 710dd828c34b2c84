import ScriptCore.Step

/-!
# Modules

A module publishes functions and constants. Most modules put them into a table of their own
under a global with the module's name; the base module writes them straight into the globals.
A registry holds modules with distinct names and installs the enabled ones in order.
-/

namespace ScriptCore

/-- How a module publishes its exports. -/
inductive Publication
  /-- In a table under a global with the module's name. -/
  | table
  /-- As globals, with the globals themselves under `_G`. -/
  | globals
  /-- Not at all: publication fails. -/
  | failing (words : String)
deriving DecidableEq, Repr

/-- A library for scripts. -/
structure Module where
  name : String
  description : String
  enabled : Bool
  exports : List (String × Val)
  publication : Publication

/-- What can go wrong with modules. -/
inductive ModuleError
  | duplicate (name : String)
  | notFound (name : String)
  | notInstalled (name words : String)
deriving DecidableEq, Repr

def ModuleError.message : ModuleError → String
  | .duplicate name => s!"module '{name}' is already registered"
  | .notFound name => s!"module '{name}' not found"
  | .notInstalled name words => s!"failed to install module '{name}': {words}"

/-- Modules in the order of their registration. -/
structure Registry where
  modules : List Module
deriving Inhabited

namespace Registry

def empty : Registry := ⟨[]⟩

def names (r : Registry) : List String := r.modules.map (·.name)

def find (r : Registry) (name : String) : Except ModuleError Module :=
  match r.modules.find? (·.name == name) with
  | some m => .ok m
  | none => .error (.notFound name)

/-- Adds a module with a new name. -/
def register (r : Registry) (m : Module) : Except ModuleError Registry :=
  if m.name ∈ r.names then .error (.duplicate m.name) else .ok ⟨r.modules ++ [m]⟩

end Registry

namespace Machine

variable {F S : Type}

/-- Writes entries of a table at strings. -/
def setFields (t : TableId) : List (String × Val) → M F S Unit
  | [] => pure ()
  | (name, v) :: rest => do setField t name v; setFields t rest

/-- Publishes the exports of a module. -/
def publish (m : Module) : M F S (Except ModuleError Unit) := do
  match m.publication with
  | .table =>
    let library ← newTable
    setFields library m.exports
    setField (← globals) m.name (.table library)
    return .ok ()
  | .globals =>
    let globals ← globals
    setFields globals m.exports
    setField globals "_G" (.table globals)
    return .ok ()
  | .failing words => return .error (.notInstalled m.name words)

/-- Installs the enabled ones of some modules, up to the first that fails. -/
def install : List Module → M F S (Except ModuleError Unit)
  | [] => return .ok ()
  | m :: ms => do
    if m.enabled then
      record fun _ => .install m.name
      match ← publish m with
      | .ok () => install ms
      | .error e => return .error e
    else install ms

end Machine

end ScriptCore
