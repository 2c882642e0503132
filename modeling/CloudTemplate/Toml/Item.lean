import CloudTemplate.NameTable

/-!
# TOML items

The data of a TOML document, and the rules for defining tables step by step. A table is defined by
a header, by the header of a table below it, by a dotted key, or in one line by its value; how it
was defined decides what may be added to it.

Main definitions: `Item.define` enters a key with its value, `Item.openTable` and
`Item.appendTable` follow a header.
-/

namespace CloudTemplate
namespace Toml

/-- How a table was defined. -/
inductive Origin where
  /-- By its own header, or as the whole document. -/
  | header
  /-- By the header of a table below it. -/
  | implied
  /-- By a dotted key. -/
  | dotted
  /-- By a value in braces. -/
  | value
deriving DecidableEq, Repr

/-- An item of a document. -/
inductive Item where
  | string (text : String)
  | boolean (value : Bool)
  /-- A number, whose value counts only as far as it is in range. -/
  | number ( isInRange : Bool)
  /-- A date, a time or both, in normal form. -/
  | moment (text : String)
  | list (items : List Item)
  | table (origin : Origin) (entries : List (String × Item))
  /-- The tables of headers in double brackets, the latest first. -/
  | tables (items : List (List (String × Item)))
deriving Inhabited

namespace Item

/-- A table under definition. -/
abbrev Body := List (String × Item)

/-- A step of a definition: it may change the entries of a table, given how the table was
defined. -/
abbrev Change := Origin → Body → Option Body

/-- Whether a key may lead through a table. A dotted key may not lead into a table that has a
header of its own, and nothing leads into a value. -/
def isOpen (isDotted : Bool) : Origin → Bool
  | .header => !isDotted
  | .implied => true
  | .dotted => true
  | .value => false

/-- Change the table that a path leads to. Tables that are missing on the way are defined. -/
def change (isDotted : Bool) (f : Change) : List String → Change
  | [], origin, entries => f origin entries
  | key :: rest, _, entries =>
    match Entries.lookup key entries with
    | none =>
      let origin := if isDotted then Origin.dotted else .implied
      (change isDotted f rest origin []).map fun inner =>
        Entries.put key (.table origin inner) entries
    | some (.table origin inner) =>
      if isOpen isDotted origin then
        (change isDotted f rest origin inner).map fun inner =>
          Entries.put key (.table origin inner) entries
      else none
    | some (.tables (latest :: earlier)) =>
      (change isDotted f rest .header latest).map fun latest =>
        Entries.put key (.tables (latest :: earlier)) entries
    | some _ => none

/-- Enter a value under a new key. A dotted key enters it into a table of dotted keys. -/
def enter (isDotted : Bool) (key : String) (item : Item) : Change := fun origin entries =>
  if (isDotted && origin ≠ .dotted) || Entries.hasName key entries then none
  else some (Entries.put key item entries)

/-- Enter a key, which may be dotted, with its value into a table. -/
def define (path : List String) (key : String) (item : Item) : Change :=
  change true (enter (!path.isEmpty) key item) path

/-- Define a table by its header. Only a table that was implied may be there already. -/
def openTable (key : String) : Change := fun _ entries =>
  match Entries.lookup key entries with
  | none => some (Entries.put key (.table .header []) entries)
  | some (.table .implied inner) => some (Entries.put key (.table .header inner) entries)
  | some _ => none

/-- Add a table by a header in double brackets. -/
def appendTable (key : String) : Change := fun _ entries =>
  match Entries.lookup key entries with
  | none => some (Entries.put key (.tables [[]]) entries)
  | some (.tables earlier) => some (Entries.put key (.tables ([] :: earlier)) entries)
  | some _ => none

/-- Enter a key into the table that a header leads to. -/
def defineIn (header path : List String) (key : String) (item : Item) : Change :=
  change false (define path key item) header

/-- The key under which a date or a time shows its text where a table is wanted. -/
def momentKey : String := "$__toml_private_datetime"

/-- The entries of a table. A date or a time counts as a table with its text. -/
def entries? : Item → Option Body
  | .table _ entries => some entries
  | .moment text => some [(momentKey, .string text)]
  | _ => none

/-- The items of a list, those of headers in double brackets included. -/
def items? : Item → Option (List Item)
  | .list items => some items
  | .tables bodies => some (bodies.reverse.map (.table .header))
  | _ => none

/-- The text of a string. -/
def string? : Item → Option String
  | .string text => some text
  | _ => none

/-- The value of a boolean. -/
def boolean? : Item → Option Bool
  | .boolean value => some value
  | _ => none

mutual

/-- Whether all numbers in an item are in range. -/
def hasRange : Item → Bool
  | .number isInRange => isInRange
  | .list items => itemsHaveRange items
  | .table _ entries => entriesHaveRange entries
  | .tables bodies => bodiesHaveRange bodies
  | _ => true

/-- Whether all numbers in some items are in range. -/
def itemsHaveRange : List Item → Bool
  | [] => true
  | item :: rest => hasRange item && itemsHaveRange rest

/-- Whether all numbers in the entries of a table are in range. -/
def entriesHaveRange : List (String × Item) → Bool
  | [] => true
  | (_, item) :: rest => hasRange item && entriesHaveRange rest

/-- Whether all numbers in some tables are in range. -/
def bodiesHaveRange : List (List (String × Item)) → Bool
  | [] => true
  | entries :: rest => entriesHaveRange entries && bodiesHaveRange rest

end

end Item

end Toml
end CloudTemplate
