import CloudTemplate.Registry.Basic
import CloudTemplate.Template.Source

/-!
# Declaration units

A unit is what declares resources together: a template file, or resources made in code. Loading
units registers their resources and keeps what else they declare.
-/

namespace CloudTemplate

/-- A parse error with the name that is shown for the file it is about. -/
def Error.inFile (name : String) : Error → Error
  | .parse place fault none => .parse place fault (some name)
  | e => e

/-- The template that a file holds. The format is the given one, or follows from the file name, or
from the content. -/
def Template.ofFile (path : FilePath) (format : Option DocumentFormat) (bytes : Bytes) :
    Except Error Template :=
  let format := (format.or (DocumentFormat.ofPath? path)).getD (.ofContent bytes)
  (Template.ofBytes format bytes).mapError (Error.inFile path.shown)

/-- What declares resources together. -/
structure DeclarationUnit where
  name : String
  /-- The declared resources under their logical ids, in the order of their declaration. -/
  resources : List (String × Resource)
  /-- What else is declared; there are no resources in it. -/
  context : Template
deriving DecidableEq

/-- A unit that was loaded. -/
structure LoadedUnit where
  name : String
  /-- The registered names, in the order of their registration. -/
  registered : List String
  context : Template
deriving DecidableEq

namespace DeclarationUnit

/-- Resources made in code, with nothing beside them. -/
def ofResources (name : String) (resources : List (String × Resource)) : DeclarationUnit :=
  ⟨name, resources, .empty⟩

/-- The unit of the template in a file. Its name is the text that is shown for the path, so units of
different files may have the same name. -/
def ofTemplate (path : FilePath) (t : Template) : DeclarationUnit :=
  ⟨path.shown, t.resources.entries, { t with resources := .empty }⟩

/-- Register the resources of a unit under their logical ids, with the unit as their scope. -/
def register (registry : Registry) (u : DeclarationUnit) : Registry :=
  u.resources.foldl
    (fun registry entry => registry.register entry.1 ⟨u.name, entry.1, entry.2⟩ none) registry

/-- What is known of a unit after its resources were registered. -/
def loaded (u : DeclarationUnit) : LoadedUnit :=
  ⟨u.name, Entries.names u.resources, u.context⟩

/-- Register the resources of some units. -/
def registerAll (registry : Registry) (units : List DeclarationUnit) : Registry :=
  units.foldl register registry

end DeclarationUnit

end CloudTemplate
