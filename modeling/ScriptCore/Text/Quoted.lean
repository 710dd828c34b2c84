import ScriptCore.Text.Digit
import ScriptCore.Text.Visible

/-!
# Quoted text

A quoted text stands between double quotes. A backslash, a double quote and four controls have
short escapes; any other character without a plain form is written by its code point.

`json` quotes by the rules of JSON, where controls alone have no plain form.
-/

namespace ScriptCore.Quoted

/-- The digits of a code point, in base sixteen. -/
def codePoint (n : Nat) : String := String.ofList (Nat.toDigits 16 n)

/-- The written form of one character. -/
def escape (c : Char) : String :=
  if c = '\x00' then "\\0"
  else if c = '\t' then "\\t"
  else if c = '\r' then "\\r"
  else if c = '\n' then "\\n"
  else if c = '\\' then "\\\\"
  else if c = '"' then "\\\""
  else if Visible.isVisible c then String.singleton c
  else "\\u\x7b" ++ codePoint c.toNat ++ "\x7d"

/-- A text between quotes. -/
def quote (s : String) : String :=
  "\"" ++ s.foldl (fun out c => out ++ escape c) "" ++ "\""

/-- The written form of one character in JSON. -/
def jsonEscape (c : Char) : String :=
  if c = '"' then "\\\""
  else if c = '\\' then "\\\\"
  else if c = '\n' then "\\n"
  else if c = '\r' then "\\r"
  else if c = '\t' then "\\t"
  else if c = '\x08' then "\\b"
  else if c = '\x0c' then "\\f"
  else if c.toNat < 32 then "\\u" ++ Digit.hex 4 c.toNat
  else String.singleton c

/-- A text between quotes as JSON has it. -/
def json (s : String) : String :=
  "\"" ++ s.foldl (fun out c => out ++ jsonEscape c) "" ++ "\""

end ScriptCore.Quoted
