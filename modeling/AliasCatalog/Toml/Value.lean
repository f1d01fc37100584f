/-!
# TOML documents as data

A table remembers how it came about, because that decides what may still be added to it: a table
with a header of its own may not get another one, a table made by dotted keys may not get a header,
and an inline table is closed.
-/

namespace AliasCatalog.Toml

/-- How a table came about. -/
inductive Origin where
  /-- By a header of its own, or as the document itself. -/
  | header
  /-- By the header of a table below it. -/
  | implied
  /-- By a dotted key. -/
  | dotted
  /-- Between braces. -/
  | inline
  deriving DecidableEq, Repr

inductive Value where
  | string (text : String)
  | integer (value : Int)
  /-- A number with a fraction, an exponent, or a name. -/
  | float (literal : String)
  | boolean (value : Bool)
  /-- A date, a time, or both. -/
  | moment (literal : String)
  | array (items : List Value)
  | table (origin : Origin) (entries : List (String × Value))
  /-- Tables under double-bracket headers of one name. -/
  | tables (elements : List (List (String × Value)))
  deriving Repr

/-- The entries of a table, in the order of their first mention. -/
abbrev Entries := List (String × Value)

namespace Entries

/-- The entries with a value under a key: in its place if the key is there, else at the end. -/
def put (key : String) (value : Value) : Entries → Entries
  | [] => [(key, value)]
  | (other, old) :: rest =>
    if other = key then (key, value) :: rest else (other, old) :: put key value rest

/-- Changes the table at a path below a table, and makes the tables that are missing on the way.
`made` is how they come about; dotted keys pass only through tables without a header. -/
def changeAt (made : Origin) (change : Origin → Entries → Option Entries) :
    List String → Origin → Entries → Option Entries
  | [], origin, entries => change origin entries
  | key :: rest, _, entries =>
    match entries.lookup key with
    | none => do
      let inner ← changeAt made change rest made []
      return entries.put key (.table made inner)
    | some (.table origin inner) =>
      if origin = .inline ∨ (made = .dotted ∧ origin = .header) then none
      else do
        let changed ← changeAt made change rest origin inner
        return entries.put key (.table origin changed)
    | some (.tables elements) =>
      match elements.getLast? with
      | none => none
      | some last => do
        let changed ← changeAt made change rest .header last
        return entries.put key (.tables (elements.dropLast ++ [changed]))
    | some _ => none

/-- Adds a value under a key that is not there yet.  The table has to have come about in the way the
key is written: by dotted keys if there is a path in front of the key. -/
def addNew (key : String) (value : Value) (dotted : Bool) (origin : Origin) (entries : Entries) :
    Option Entries :=
  if (origin == .dotted) != dotted then none
  else if (entries.lookup key).isSome then none
  else some (entries.put key value)

/-- Adds a value under a dotted key. -/
def addDotted (entries : Entries) (path : List String) (value : Value) : Option Entries :=
  match path.getLast? with
  | none => none
  | some key =>
    changeAt .dotted (addNew key value (1 < path.length)) path.dropLast .header entries

def addAll (entries : Entries) (pairs : List (List String × Value)) : Option Entries :=
  pairs.foldlM (fun entries (path, value) => entries.addDotted path value) entries

/-- Adds a table with a header; a table implied by earlier headers is completed. -/
def addTable (entries : Entries) (path : List String) (pairs : List (List String × Value)) :
    Option Entries :=
  match path.getLast? with
  | none => none
  | some key =>
    changeAt .implied
      (fun _ parent => do
        let start ←
          match parent.lookup key with
          | none => some []
          | some (.table .implied inner) => some inner
          | some _ => none
        let filled ← addAll start pairs
        return parent.put key (.table .header filled))
      path.dropLast .header entries

/-- Adds a table with a double-bracket header. -/
def addElement (entries : Entries) (path : List String) (pairs : List (List String × Value)) :
    Option Entries :=
  match path.getLast? with
  | none => none
  | some key =>
    changeAt .implied
      (fun _ parent => do
        let before ←
          match parent.lookup key with
          | none => some []
          | some (.tables elements) => some elements
          | some _ => none
        let filled ← addAll [] pairs
        return parent.put key (.tables (before ++ [filled])))
      path.dropLast .header entries

end Entries

end AliasCatalog.Toml
