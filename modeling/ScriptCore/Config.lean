/-!
# Limits of a runtime
-/

namespace ScriptCore

/-- The limits that a runtime works within. -/
structure Config where
  /-- How many calls may be in progress at once. -/
  maxCallDepth : Nat
  /-- The slots of a new activation stack. -/
  initialStackSlots : Nat
  /-- How many handlers in a row a look-up or a call follows. -/
  maxMetaChain : Nat
deriving DecidableEq, Repr

namespace Config

def default : Config := ⟨200, 256, 100⟩

instance : Inhabited Config := ⟨default⟩

end Config

end ScriptCore
