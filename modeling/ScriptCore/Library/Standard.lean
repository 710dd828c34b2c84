import ScriptCore.Registry

/-!
# The standard modules

The base library goes into the globals; the coroutine and the debug library have tables of their
own. Every standard module has functions of its own.
-/

namespace ScriptCore.Standard

open Machine

variable {F S : Type}

/-- New functions under their names. -/
def functions : List (String × Callable F) → M F S (List (String × Val))
  | [] => pure []
  | (name, f) :: rest => do
    let v ← newFunctionVal f
    return (name, v) :: (← functions rest)

/-- A native function under its own name. -/
def native (b : Builtin) : String × Callable F := (b.name, .builtin b)

/-- A protected call under its name. -/
def protection (p : Protection) : String × Callable F := (p.name, .protectedCall p)

/-- What the base library exports, in order. -/
def baseExports : List (String × Callable F) :=
  [native .assert, native .error, protection .plain, protection .handler, native .select,
   native .type, native .tostring, native .print, native .rawequal, native .rawget,
   native .rawset, native .rawlen, native .getmetatable, native .setmetatable]

/-- What the coroutine library exports, in order. -/
def coroutineExports : List (String × Callable F) :=
  [Builtin.create, .resume, .yield, .status, .running, .isyieldable, .wrap].map native

/-- What the debug library exports, in order. -/
def debugExports : List (String × Callable F) :=
  [Builtin.rawGetmetatable, .rawSetmetatable, .getupvalue, .setupvalue, .upvalueid,
   .upvaluejoin].map native

def base : M F S Module := do
  return ⟨"_G", "base functions, installed as globals", true, ← functions baseExports, .globals⟩

def coroutine : M F S Module := do
  return ⟨"coroutine", "coroutine creation and control", true, ← functions coroutineExports,
    .table⟩

def debug : M F S Module := do
  return ⟨"debug", "raw metatables and upvalue access", true, ← functions debugExports, .table⟩

/-- The standard modules, in the order of their registration. -/
def modules : M F S (List Module) := do
  return [← base, ← coroutine, ← debug]

/-- Installs the standard modules. -/
def installAll : M F S (Except ModuleError Unit) := do
  install (← modules)

end ScriptCore.Standard
