/-!
# YAML tags

A full tag is a sequence of bytes. A local tag starts with an exclamation mark and names something
of the application; the standard tags name the kinds of scalars.

Main definition: `Tag.ofBytes`.
-/

namespace CloudTemplate
namespace Yaml

/-- The kinds of scalars that a tag may ask for. -/
inductive ScalarKind where
  | bool
  | integer
  | float
  | null
deriving DecidableEq, Repr, Inhabited

/-- What a full tag says. -/
inductive Tag where
  /-- A local tag with its name. -/
  | named (name : String)
  /-- A local tag whose name is no text. -/
  | unnamed
  /-- A standard tag of scalars. -/
  | standard (kind : ScalarKind)
  /-- Any other tag. -/
  | foreign
deriving DecidableEq, Repr, Inhabited

namespace Tag

/-- The tag that is an exclamation mark alone. -/
def bare : List UInt8 := [0x21]

/-- The bytes behind an exclamation mark, unless there are none. -/
def withoutMark : List UInt8 → List UInt8
  | 0x21 :: b :: rest => b :: rest
  | bytes => bytes

/-- The start of the standard tags. -/
def standardStart : String := "tag:yaml.org,2002:"

/-- The standard tags of scalars. -/
def standardTags : List (String × ScalarKind) :=
  [("bool", .bool), ("int", .integer), ("float", .float), ("null", .null)]

/-- The kind that a standard tag asks for. -/
def kind? (bytes : List UInt8) : Option ScalarKind :=
  standardTags.findSome? fun (name, kind) =>
    if bytes = (standardStart ++ name).toUTF8.toList then some kind else none

/-- What a full tag says. The name of a local tag has up to two exclamation marks in front. -/
def ofBytes (bytes : List UInt8) : Tag :=
  if bytes.head? = some 0x21 then
    match String.fromUTF8? ⟨(withoutMark (withoutMark bytes)).toArray⟩ with
    | some name => .named name
    | none => .unnamed
  else
    match kind? bytes with
    | some kind => .standard kind
    | none => .foreign

end Tag

end Yaml
end CloudTemplate
