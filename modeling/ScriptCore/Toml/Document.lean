/-!
# TOML documents

A document is a table of items. A table remembers how it came to be, since that decides what may
still be added to it: a header may open a table once, a dotted key adds only to a table made by
dotted keys, though it may pass through one that lies on the way to a header, and an inline table
is complete.

`Entries` is a table's content in order. Every operation gives `none` where the addition is not
allowed.
-/

namespace ScriptCore.Toml

/-- How a table came to be. -/
inductive Origin
  /-- It lies on the way to a header. -/
  | implicit
  /-- A header opened it. -/
  | header
  /-- It lies on the way of a dotted key. -/
  | dotted
  | inline
deriving DecidableEq, Repr

/-- An item of a document. Of scalars, only integers keep their value. -/
inductive Item
  | integer (n : Int)
  | scalar
  | array (items : List Item)
  | table (origin : Origin) (entries : List (String × Item))
  /-- An array of tables that headers opened, the last one first. -/
  | tables (tables : List (List (String × Item)))

/-- The content of a table. -/
abbrev Entries := List (String × Item)

namespace Entries

def find? (entries : Entries) (key : String) : Option Item := entries.lookup key

/-- Puts an item in the place of the one at a key. -/
def replace (entries : Entries) (key : String) (item : Item) : Entries :=
  entries.map fun e => if e.1 = key then (key, item) else e

def add (entries : Entries) (key : String) (item : Item) : Entries := entries ++ [(key, item)]

/-- Adds an item at a key, if `mayAdd` allows to add to this very table; all further parts of the
key name tables on the way. -/
def insertWith (mayAdd : Bool) (entries : Entries) : List String → Item → Option Entries
  | [], _ => none
  | [key], item =>
    match mayAdd, entries.find? key with
    | true, none => some (entries.add key item)
    | _, _ => none
  | key :: rest, item =>
    match entries.find? key with
    | none => do return entries.add key (.table .dotted (← insertWith true [] rest item))
    | some (.table .dotted inner) => do
      return entries.replace key (.table .dotted (← insertWith true inner rest item))
    | some (.table .implicit inner) => do
      return entries.replace key (.table .implicit (← insertWith false inner rest item))
    | some (.tables (last :: others)) => do
      return entries.replace key (.tables ((← insertWith false last rest item) :: others))
    | some _ => none

/-- Adds an item at a dotted key. -/
def insert (entries : Entries) (path : List String) (item : Item) : Option Entries :=
  insertWith true entries path item

/-- Changes the table that a header has opened. -/
def update (entries : Entries) (f : Entries → Option Entries) : List String → Option Entries
  | [] => f entries
  | key :: rest =>
    match entries.find? key with
    | some (.table origin inner) => do
      return entries.replace key (.table origin (← update inner f rest))
    | some (.tables (last :: others)) => do
      return entries.replace key (.tables ((← update last f rest) :: others))
    | _ => none

/-- Goes on inside the table at a key on the way to a header, which may have to be made. -/
def descend (entries : Entries) (key : String) (f : Entries → Option Entries) : Option Entries :=
  match entries.find? key with
  | none => do return entries.add key (.table .implicit (← f []))
  | some (.table .inline _) => none
  | some (.table origin inner) => do return entries.replace key (.table origin (← f inner))
  | some (.tables (last :: others)) => do return entries.replace key (.tables ((← f last) :: others))
  | some _ => none

/-- Opens the table of a header. -/
def openTable (entries : Entries) : List String → Option Entries
  | [] => none
  | [key] =>
    match entries.find? key with
    | none => some (entries.add key (.table .header []))
    | some (.table .implicit inner) => some (entries.replace key (.table .header inner))
    | some _ => none
  | key :: rest => entries.descend key fun inner => openTable inner rest

/-- Opens one more table in the array of a header. -/
def openArray (entries : Entries) : List String → Option Entries
  | [] => none
  | [key] =>
    match entries.find? key with
    | none => some (entries.add key (.tables [[]]))
    | some (.tables all) => some (entries.replace key (.tables ([] :: all)))
    | some _ => none
  | key :: rest => entries.descend key fun inner => openArray inner rest

end Entries

end ScriptCore.Toml
