import CloudTemplate.Error
import CloudTemplate.Template.Resource

/-!
# Catalogs

A catalog lists the property names that resource types accept. A resource set is checked against
it as a whole; types that the catalog does not list accept everything.
-/

namespace CloudTemplate

/-- The accepted property names of resource types. -/
abbrev Catalog := NameTable NameSet

namespace Catalog

/-- The document tree of a catalog. -/
def toTree (catalog : Catalog) : Tree :=
  .map (NameTable.map (fun accepted => Tree.list (accepted.names.map .string)) catalog).entries

/-- The properties of a resource that its type does not accept. -/
def unknownProperties (catalog : Catalog) (id : String) (r : Resource) : List UnknownProperty :=
  match NameTable.get? catalog r.typeName with
  | none => []
  | some accepted =>
    (r.properties.names.filter fun name => !accepted.contains name).map fun name =>
      ⟨id, r.typeName, name, closestName? name accepted⟩

/-- Check all resources of a set. The unknown properties are reported together, in the order of
the ids and property names. -/
def validate (catalog : Catalog) (resources : ResourceSet) : Except Error Unit :=
  match resources.entries.flatMap fun entry => catalog.unknownProperties entry.1 entry.2 with
  | [] => .ok ()
  | unknown => .error (.unknownProperties unknown)

end Catalog

end CloudTemplate
