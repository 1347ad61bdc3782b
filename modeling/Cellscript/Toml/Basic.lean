/-!
Documents of keys and values in the TOML format: the tree they describe, and how headers and dotted
keys build it. Every key is given once. A table may be reached by several headers, but only one of
them defines it, and dotted keys and inline tables define theirs on the spot.
-/

set_option autoImplicit false

namespace Cellscript.Toml

/-- How a table came to be: by a header of its own, as a step on the way of another header, as a
step of a dotted key, or written inline. -/
inductive Origin
  | header | implied | dotted | inline
deriving DecidableEq

inductive Item
  | string (s : String)
  | integer (n : Int)
  | float (x : Float)
  | boolean (b : Bool)
  /-- A date, a time of day, or both, as written. -/
  | moment (text : String)
  | array (items : List Item)
  | table (origin : Origin) (entries : List (String × Item))
  /-- An array of tables, one for each of its headers. -/
  | tables (rows : List (List (String × Item)))

abbrev Entries := List (String × Item)

/-- Puts an item in the place of the one with the same key. -/
def replace (entries : Entries) (key : String) (item : Item) : Entries :=
  entries.map fun (k, old) => if k = key then (k, item) else (k, old)

/-- Changes the table at the end of a path. Tables that are missing on the way are made, as `made`
says. A dotted key may not pass through a table that has a header, and no path may pass through a
value. -/
def updateAt (made : Origin) (change : Origin → Entries → Option Entries) :
    List String → Origin → Entries → Option Entries
  | [], origin, entries => change origin entries
  | key :: path, _, entries =>
    match entries.lookup key with
    | none =>
      (updateAt made change path made []).map fun inner => entries ++ [(key, .table made inner)]
    | some (.table origin inner) =>
      if origin = .inline ∨ made = .dotted ∧ origin = .header then none
      else
        (updateAt made change path origin inner).map fun inner =>
          replace entries key (.table origin inner)
    | some (.tables rows) =>
      match rows.getLast? with
      | none => none
      | some row =>
        (updateAt made change path .header row).map fun row =>
          replace entries key (.tables (rows.dropLast ++ [row]))
    | some _ => none

def addEntry (entries : Entries) (key : String) (item : Item) : Option Entries :=
  match entries.lookup key with
  | none => some (entries ++ [(key, item)])
  | some _ => none

/-- Sets a dotted key. The table it ends in has to be one that dotted keys made. -/
def setKey (entries : Entries) (path : List String) (key : String) (item : Item) :
    Option Entries :=
  updateAt .dotted
    (fun origin inner =>
      if path.isEmpty ∨ origin = .dotted then addEntry inner key item else none)
    path .header entries

/-- Defines the table of a header. -/
def openTable (entries : Entries) (path : List String) (key : String) : Option Entries :=
  updateAt .implied
    (fun _ inner =>
      match inner.lookup key with
      | none => some (inner ++ [(key, .table .header [])])
      | some (.table .implied found) => some (replace inner key (.table .header found))
      | some _ => none)
    path .header entries

/-- Adds a table to an array of tables. -/
def openRow (entries : Entries) (path : List String) (key : String) : Option Entries :=
  updateAt .implied
    (fun _ inner =>
      match inner.lookup key with
      | none => some (inner ++ [(key, .tables [[]])])
      | some (.tables rows) => some (replace inner key (.tables (rows ++ [[]])))
      | some _ => none)
    path .header entries

end Cellscript.Toml
