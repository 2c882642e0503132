import CloudTemplate.Catalog.Basic
import CloudTemplate.Json.Reader

/-!
# Catalogs in JSON

A catalog is written as an object with a list of property names for each type. Of a type that is
listed twice the last list counts. A value of another kind is reported where it was noticed: a
list or an object at its bracket, everything else behind its end.
-/

namespace CloudTemplate
namespace Catalog

/-- Report a value of another kind than is asked for; `fuel` bounds the bytes that are left. -/
def wrongKind {α : Type} (fuel : Nat) (expected : String) (c : Json.Cursor) :
    Except Json.Stop α :=
  match c.rest with
  | 0x5B :: _ => c.stop (.wrongKind "sequence" expected)
  | 0x7B :: _ => c.stop (.wrongKind "map" expected)
  | _ =>
    match Json.value .replaces (fuel + 1) 1 c with
    | .error stop => .error stop
    | .ok (found, behind) => behind.stop (.wrongKind found.foreignKind expected)

/-- A cursor at the start of a value. -/
def startOf (c : Json.Cursor) : Except Json.Stop Json.Cursor :=
  let c := c.skipBlanks
  if c.rest.isEmpty then c.stop .endOfValue else .ok c

/-- A property name; `fuel` bounds the bytes that are left. -/
def name (fuel : Nat) (c : Json.Cursor) : Except Json.Stop (String × Json.Cursor) := do
  let c ← startOf c
  match c.rest with
  | 0x22 :: _ => Json.stringBody fuel (c.skip 1)
  | _ => wrongKind fuel "a string" c

/-- The property names of a list, from the next place on; `fuel` bounds the bytes that are left. -/
def namesFrom (fuel : Nat) (isFirst : Bool) (seen : NameSet) (c : Json.Cursor) :
    Except Json.Stop (NameSet × Json.Cursor) :=
  match fuel with
  | 0 => c.stop .endOfList
  | fuel + 1 => do
    match ← Json.listPlace isFirst c with
    | .close c => return (seen, c)
    | .item c =>
      let (found, c) ← name fuel c
      namesFrom fuel false (NameSet.add seen found) c

/-- A list of property names; `fuel` bounds the bytes that are left. -/
def nameList (fuel : Nat) (c : Json.Cursor) : Except Json.Stop (NameSet × Json.Cursor) := do
  let c ← startOf c
  match c.rest with
  | 0x5B :: _ => namesFrom fuel true .empty (c.skip 1)
  | _ => wrongKind fuel "a sequence" c

/-- The types of a catalog, from the next place on; `fuel` bounds the bytes that are left. -/
def typesFrom (fuel : Nat) (isFirst : Bool) (seen : Catalog) (c : Json.Cursor) :
    Except Json.Stop (Catalog × Json.Cursor) :=
  match fuel with
  | 0 => c.stop .endOfObject
  | fuel + 1 => do
    match ← Json.objectPlace isFirst c with
    | .close c => return (seen, c)
    | .item c =>
      let (typeName, c) ← Json.stringBody fuel (c.skip 1)
      let c ← Json.colon c
      let (accepted, c) ← nameList fuel c
      typesFrom fuel false (NameTable.insert seen typeName accepted) c

/-- A catalog; `fuel` bounds the bytes that are left. -/
def types (fuel : Nat) (c : Json.Cursor) : Except Json.Stop (Catalog × Json.Cursor) := do
  let c ← startOf c
  match c.rest with
  | 0x7B :: _ => typesFrom fuel true .empty (c.skip 1)
  | _ => wrongKind fuel "a map" c

/-- The catalog that a JSON text holds. -/
def ofJson (bytes : List UInt8) : Except Error Catalog :=
  (Json.readText (types (bytes.length + 1)) bytes).mapError .json

end Catalog
end CloudTemplate
