/-!
# Locations in documents

A fault in a template is located by a path of names and indices, or, when the text itself is
faulty, by line and column.
-/

namespace CloudTemplate

/-- A place in a document. The empty path is the root. -/
structure Location where
  path : String
  line : Option Nat
  column : Option Nat
deriving DecidableEq, Repr

namespace Location

/-- The place with a path. -/
def atPath (path : String) : Location := ⟨path, none, none⟩

/-- A place in the text. -/
def atLine (line column : Nat) : Location := ⟨"", some line, some column⟩

/-- A path in words. -/
def describePath (path : String) : String :=
  if path.isEmpty then "<root>" else path

/-- A place in words. -/
def describe (place : Location) : String :=
  let path := describePath place.path
  match place.line, place.column with
  | some line, some column =>
    if place.path.isEmpty then "line " ++ toString line ++ ", column " ++ toString column
    else path ++ " (line " ++ toString line ++ ", column " ++ toString column ++ ")"
  | some line, none => path ++ " (line " ++ toString line ++ ")"
  | none, _ => path

end Location

end CloudTemplate
