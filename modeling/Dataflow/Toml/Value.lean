/-!
# TOML values

Documents as trees of tables. A table remembers how it was written, since that decides what may
still be added to it; the entries stand in the order in which they were written.
-/

namespace Dataflow

namespace Toml

/-- How a table came to be. -/
inductive Origin
  /-- Written between braces; closed for good. -/
  | inline
  /-- Written under a header of its own, or the document itself. -/
  | header
  /-- On the way to a header. -/
  | implied
  /-- On the way to a dotted key. -/
  | dotted
  deriving DecidableEq

end Toml

/-- Floats and dates are kept as their text. -/
inductive Toml
  | string (text : String)
  | integer (value : Int)
  | float (text : String)
  | dateTime (text : String)
  | bool (value : Bool)
  | array (elements : List Toml)
  | table (origin : Toml.Origin) (entries : List (String × Toml))
  /-- Tables under headers in double brackets, the last one first. -/
  | tables (entries : List (List (String × Toml)))

namespace Toml

abbrev Entries := List (String × Toml)

namespace Entries

def get? (entries : Entries) (key : String) : Option Toml :=
  (entries.find? (·.1 = key)).map (·.2)

def replace (entries : Entries) (key : String) (value : Toml) : Entries :=
  entries.map fun entry => if entry.1 = key then (key, value) else entry

def add (entries : Entries) (key : String) (value : Toml) : Entries :=
  entries ++ [(key, value)]

/-- Changes the table at the end of a path. Tables that are missing on the way are made with the
given origin; a path of dotted keys does not lead into a table with a header of its own. -/
def modifyAt (making : Origin) (change : Origin → Entries → Option Entries) :
    List String → Origin → Entries → Option Entries
  | [], origin, entries => change origin entries
  | key :: path, _, entries =>
    match entries.get? key with
    | none => (modifyAt making change path making []).map fun below =>
        entries.add key (table making below)
    | some (table origin below) =>
      if origin = .inline ∨ making = .dotted ∧ origin = .header then none
      else (modifyAt making change path origin below).map fun below =>
        entries.replace key (table origin below)
    | some (tables (last :: earlier)) =>
      (modifyAt making change path .header last).map fun last =>
        entries.replace key (tables (last :: earlier))
    | some _ => none

/-- Adds the value of a dotted key. The tables of its path have to come from dotted keys. -/
def addDotted (path : List String) (key : String) (value : Toml) (origin : Origin)
    (entries : Entries) : Option Entries :=
  modifyAt .dotted (fun origin entries =>
    if (!path.isEmpty && origin != .dotted) || (entries.get? key).isSome then none
    else some (entries.add key value)) path origin entries

/-- Opens the table of a header, which must not have been opened before. -/
def openTable (path : List String) (key : String) (entries : Entries) : Option Entries :=
  modifyAt .implied (fun _ entries =>
    match entries.get? key with
    | none => some (entries.add key (table .header []))
    | some (table .implied below) => some (entries.replace key (table .header below))
    | some _ => none) path .header entries

/-- Opens one more table of a header in double brackets. -/
def openElement (path : List String) (key : String) (entries : Entries) : Option Entries :=
  modifyAt .implied (fun _ entries =>
    match entries.get? key with
    | none => some (entries.add key (tables [[]]))
    | some (tables earlier) => some (entries.replace key (tables ([] :: earlier)))
    | some _ => none) path .header entries

/-- Adds the value of a dotted key to the table that a header has opened. -/
def addUnder (header path : List String) (key : String) (value : Toml) (entries : Entries) :
    Option Entries :=
  modifyAt .implied (addDotted path key value) header .header entries

end Entries

end Toml

end Dataflow
