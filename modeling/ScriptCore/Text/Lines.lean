/-!
# Lines and paths

Texts cut at their line ends, and names of files cut at their slashes.
-/

namespace ScriptCore.Lines

/-- A line without the mark that may stand before its end. -/
def bare (line : String) : String :=
  if line.endsWith "\r" then (line.dropEnd 1).toString else line

/-- The lines of a text. Each ends with a line feed, or with a carriage return and a line feed;
the last one may end with the text. -/
def ofText (s : String) : List String :=
  match (s.splitOn "\n").reverse with
  | [] => []
  | last :: others =>
    let ended := others.reverse.map bare
    if last = "" then ended else ended ++ [last]

/-- A file name without the parts that lead nowhere. There is none if the name starts at the root
or ends like that of a directory. -/
def plainPath? (s : String) : Option String :=
  let parts := s.splitOn "/"
  let steps := parts.filter fun part => part ≠ "." ∧ part ≠ ""
  if parts.length ≠ 1 ∧ parts.head? = some "" then none
  else if parts.getLast? = steps.getLast? then some ("/".intercalate steps) else none

end ScriptCore.Lines
