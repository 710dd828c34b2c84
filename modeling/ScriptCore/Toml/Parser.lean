import ScriptCore.Toml.Document
import ScriptCore.Toml.Scalar

/-!
# Reading TOML

A reader takes what it knows from the front of the characters. Loops and nested values have fuel,
one unit for each character of the document, and every round takes at least one. Values nest only
so deep, and a key has only so many parts.
-/

namespace ScriptCore.Toml

/-- Reads something from the front of the characters, or fails. -/
abbrev Reader := StateT (List Char) Option

namespace Reader

/-- The next character, if there is one. -/
def peek : Reader (Option Char) := do return (← get).head?

/-- Takes the next character. -/
def next : Reader Char := do
  match ← get with
  | c :: cs => set cs; return c
  | [] => failure

/-- Takes a given text. -/
def expect (s : String) : Reader Unit := do
  let cs ← get
  if s.toList.isPrefixOf cs then set (cs.drop s.length) else failure

/-- Takes a given text if it comes next. -/
def accept (s : String) : Reader Bool := do
  let cs ← get
  if s.toList.isPrefixOf cs then
    set (cs.drop s.length)
    return true
  return false

/-- Takes the characters of a class. -/
def takeWhile (p : Char → Bool) : Reader (List Char) := do
  let cs ← get
  set (cs.dropWhile p)
  return cs.takeWhile p

/-- Takes blanks. -/
def blanks : Reader Unit := do let _ ← takeWhile fun c => c == ' ' || c == '\t'

/-- How deep arrays and inline tables nest, and how many parts a key has, at most. -/
def maxDepth : Nat := 80

/-- Whether a character may stand in a comment or a string. -/
def isPlain (c : Char) : Bool := c == '\t' || (' ' ≤ c && c != '\x7f')

/-- Takes a comment, if one comes next. -/
def comment : Reader Unit := do
  if ← accept "#" then let _ ← takeWhile isPlain

/-- Takes the end of a line, if it comes next. -/
def newline : Reader Bool := do
  if ← accept "\n" then return true
  accept "\r\n"

/-- Takes blanks, comments and ends of lines. -/
def spaces : Nat → Reader Unit
  | 0 => pure ()
  | n + 1 => do
    blanks
    comment
    if ← newline then spaces n

/-- Takes the rest of a line without content. -/
def lineEnd : Reader Unit := do
  blanks
  comment
  if (← peek).isSome then
    if !(← newline) then failure

/-! ## Strings -/

/-- The character that some digits of base sixteen name. -/
def unicode (digits : Nat) : Reader Char := do
  let cs ← get
  let hex := cs.take digits
  if hex.length < digits ∨ '_' ∈ hex then failure
  match Scalar.number? 16 0 false hex with
  | some n =>
    if n < 0xd800 ∨ (0xdfff < n ∧ n < 0x110000) then
      set (cs.drop digits)
      return Char.ofNat n
    else failure
  | none => failure

/-- The character of an escape after its backslash. -/
def escaped : Reader Char := do
  match ← next with
  | 'b' => return '\x08'
  | 'e' => return '\x1b'
  | 't' => return '\t'
  | 'n' => return '\n'
  | 'f' => return '\x0c'
  | 'r' => return '\r'
  | '"' => return '"'
  | '\\' => return '\\'
  | 'x' => unicode 2
  | 'u' => unicode 4
  | 'U' => unicode 8
  | _ => failure

/-- The rest of a string between double quotes. -/
def basic (out : List Char) : Nat → Reader String
  | 0 => failure
  | n + 1 => do
    match ← next with
    | '"' => return String.ofList out.reverse
    | '\\' => do basic ((← escaped) :: out) n
    | c => if isPlain c then basic (c :: out) n else failure

/-- The rest of a string between single quotes. -/
def literal : Reader String := do
  let cs ← takeWhile fun c => isPlain c && c != '\''
  expect "'"
  return String.ofList cs

/-- Takes the end of a string of several lines: three quotes, and up to two before them that
belong to the string. -/
def closing (quote : Char) : Reader (Option Nat) := do
  let cs ← get
  let n := (cs.takeWhile (· == quote)).length
  if n < 3 then return none
  if 5 < n then failure
  set (cs.drop n)
  return some (n - 3)

/-- Takes blanks and ends of lines. -/
def blankLines : Nat → Reader Unit
  | 0 => pure ()
  | n + 1 => do
    blanks
    if ← newline then blankLines n

/-- Takes a backslash that joins lines, with the blanks and line ends after it. -/
def joining (fuel : Nat) : Reader Bool := do
  let cs ← get
  match cs with
  | '\\' :: rest =>
    set rest
    blanks
    if ← newline then
      blankLines fuel
      return true
    set cs
    return false
  | _ => return false

/-- The rest of a string of several lines. -/
def multiline (quote : Char) (out : List Char) : Nat → Reader String
  | 0 => failure
  | n + 1 => do
    match ← closing quote with
    | some extra => return String.ofList (List.replicate extra quote ++ out).reverse
    | none =>
      if quote == '"' && (← joining n) then multiline quote out n
      else if ← newline then multiline quote ('\n' :: out) n
      else
        let c ← next
        if c == '\\' && quote == '"' then multiline quote ((← escaped) :: out) n
        else if isPlain c then multiline quote (c :: out) n
        else failure

/-! ## Keys -/

def isBare (c : Char) : Bool := c.isAlphanum || c == '_' || c == '-'

/-- One part of a key. -/
def keyPart (fuel : Nat) : Reader String := do
  if ← accept "\"" then basic [] fuel
  else if ← accept "'" then literal
  else
    let cs ← takeWhile isBare
    if cs.isEmpty then failure
    return String.ofList cs

/-- A key of at most some parts between points. -/
def keyParts (fuel : Nat) : Nat → Reader (List String)
  | 0 => failure
  | n + 1 => do
    blanks
    let part ← keyPart fuel
    blanks
    if ← accept "." then return part :: (← keyParts fuel n)
    return [part]

/-- A key. -/
def key (fuel : Nat) : Reader (List String) := keyParts fuel maxDepth

/-! ## Values -/

/-- A scalar without quotes; a time may follow a date after a blank. -/
def scalar : Reader Item := do
  let isToken := fun (c : Char) => c.isAlphanum || "_+-.:".toList.contains c
  let cs ← takeWhile isToken
  let rest ← get
  let time := (rest.drop 1).takeWhile isToken
  let whole ← if Scalar.isDate cs && rest.head? == some ' ' && Scalar.isZonedTime time then do
      set (rest.drop (1 + time.length))
      pure (cs ++ ' ' :: time)
    else pure cs
  match Scalar.ofChars? whole with
  | some (.integer n) => return .integer n
  | some .other => return .scalar
  | none => failure

mutual

/-- A value that nests at most `depth` deep. -/
def value (depth : Nat) : Nat → Reader Item
  | 0 => failure
  | n + 1 => do
    if ← accept "\"\"\"" then
      let _ ← newline
      let _ ← multiline '"' [] (← get).length.succ
      return .scalar
    if ← accept "'''" then
      let _ ← newline
      let _ ← multiline '\'' [] (← get).length.succ
      return .scalar
    if ← accept "\"" then
      let _ ← basic [] (← get).length.succ
      return .scalar
    if ← accept "'" then
      let _ ← literal
      return .scalar
    if ← accept "[" then
      if depth = 0 then failure
      return .array (← elements (depth - 1) n)
    if ← accept "\x7b" then
      if depth = 0 then failure
      return .table .inline (← members (depth - 1) [] n)
    scalar

/-- The elements of an array and its end. -/
def elements (depth : Nat) : Nat → Reader (List Item)
  | 0 => failure
  | n + 1 => do
    spaces (← get).length.succ
    if ← accept "]" then return []
    let item ← value depth n
    spaces (← get).length.succ
    if ← accept "," then return item :: (← elements depth n)
    expect "]"
    return [item]

/-- The members of an inline table and its end. Lines may end anywhere but inside a key. -/
def members (depth : Nat) (entries : Entries) : Nat → Reader Entries
  | 0 => failure
  | n + 1 => do
    let fuel := (← get).length.succ
    spaces fuel
    if ← accept "\x7d" then return entries
    let path ← key fuel
    spaces fuel
    expect "="
    spaces fuel
    let item ← value depth n
    spaces fuel
    match entries.insert path item with
    | none => failure
    | some entries =>
      if ← accept "," then members depth entries n
      else
        expect "\x7d"
        return entries

end

/-! ## Documents -/

/-- The header of a table or of an array of tables. -/
def header (fuel : Nat) : Reader (List String × Bool) := do
  let isArray ← accept "[["
  if !isArray then expect "["
  let path ← key fuel
  expect (if isArray then "]]" else "]")
  return (path, isArray)

/-- The lines of a document; `current` is the header in force. -/
def lines (root : Entries) (current : List String) : Nat → Reader Entries
  | 0 => failure
  | n + 1 => do
    let fuel := (← get).length.succ
    spaces fuel
    match ← peek with
    | none => return root
    | some '[' =>
      let (path, isArray) ← header fuel
      lineEnd
      match if isArray then root.openArray path else root.openTable path with
      | some root => lines root path n
      | none => failure
    | some _ =>
      let path ← key fuel
      expect "="
      blanks
      let item ← value maxDepth fuel
      lineEnd
      match root.update (·.insert path item) current with
      | some root => lines root current n
      | none => failure

end Reader

/-- The content of a document, if it is one. -/
def parse? (source : String) : Option Entries :=
  let cs := source.toList
  let cs := if cs.head? = some '\ufeff' then cs.drop 1 else cs
  (Reader.lines [] [] (cs.length + 1)).run' cs

end ScriptCore.Toml
