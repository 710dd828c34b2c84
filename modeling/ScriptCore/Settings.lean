import ScriptCore.Config
import ScriptCore.Toml.Parser

/-!
# The text of limits

Limits are written as a TOML document with one line for each. Reading takes the limits that a
document sets and the defaults for all others; a limit is an integer of 64 bits that is not
negative.
-/

namespace ScriptCore.Config

/-- A line for each limit. -/
def text (c : Config) : String :=
  s!"max_call_depth = {c.maxCallDepth}\n" ++
  s!"initial_stack_slots = {c.initialStackSlots}\n" ++
  s!"max_meta_chain = {c.maxMetaChain}\n"

/-- The limit that a document sets, else a default. -/
def limit (entries : Toml.Entries) (key : String) (default : Nat) : Option Nat :=
  match entries.find? key with
  | none => some default
  | some (.integer n) => if 0 ≤ n ∧ n < twoPow 64 then some n.toNat else none
  | some _ => none

/-- The limits of a document, if it sets them well. -/
def ofText? (source : String) : Option Config := do
  let entries ← Toml.parse? source
  return ⟨← limit entries "max_call_depth" default.maxCallDepth,
    ← limit entries "initial_stack_slots" default.initialStackSlots,
    ← limit entries "max_meta_chain" default.maxMetaChain⟩

end ScriptCore.Config
