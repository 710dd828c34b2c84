import ScriptCore.Text.Digit

/-!
# Addresses in text

The text of an object without a name of its own ends in `: 0x` and the digits of its address.
Texts of two runs can be compared once the digits are hidden.
-/

namespace ScriptCore.Address

/-- What comes before the digits of an address. -/
def mark : String := ": 0x"

/-- Puts a question mark in place of the digits that a text begins with. -/
def hideFirst (s : String) : String :=
  let chars := s.toList
  let rest := chars.dropWhile fun c => (Digit.value? c).isSome
  if rest.length < chars.length then "?" ++ String.ofList rest else s

/-- A text with every address hidden. -/
def hide (s : String) : String :=
  match s.splitOn mark with
  | [] => s
  | first :: rest => first ++ String.join (rest.map fun part => mark ++ hideFirst part)

end ScriptCore.Address
