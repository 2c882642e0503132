import CloudTemplate.Error
import CloudTemplate.Template.Resource

/-!
# Registries

A registry collects resource declarations under registration names, and knows for each type which
names are registered with it. Registering a name again replaces what was registered before.

Main definitions: `Registry.register`, `Registry.perform` for calls with their answers, and
`Registry.snapshot`, the resources by their logical ids.
-/

namespace CloudTemplate

/-- A declared resource and where it was declared. -/
structure Declaration where
  /-- What declares the resource, such as a file. -/
  scope : String
  logicalId : String
  resource : Resource
deriving DecidableEq

/-- A declaration and the type it is registered with. -/
structure Registration where
  declaration : Declaration
  typeName : String
deriving DecidableEq

/-- Registered declarations by name, and registered names by type. -/
structure Registry where
  byName : NameTable Registration
  byType : NameTable NameSet
deriving DecidableEq

namespace Registry

/-- The registry without registrations. -/
def empty : Registry := ⟨.empty, .empty⟩

/-- Remove a name from those of a type; a type without names is removed. -/
def unlist (byType : NameTable NameSet) (typeName name : String) : NameTable NameSet :=
  match byType.get? typeName with
  | none => byType
  | some names =>
    let left := names.erase name
    if left.isEmpty then byType.erase typeName else byType.insert typeName left

/-- Add a name to those of a type. -/
def enlist (byType : NameTable NameSet) (typeName name : String) : NameTable NameSet :=
  byType.insert typeName (NameSet.add ((byType.get? typeName).getD .empty) name)

/-- Register a declaration under a name, with its own type or with another one. -/
def register (registry : Registry) (name : String) (declaration : Declaration)
    (typeName : Option String) : Registry :=
  let typeName := typeName.getD declaration.resource.typeName
  let byType :=
    match registry.byName.get? name with
    | none => registry.byType
    | some old => unlist registry.byType old.typeName name
  ⟨registry.byName.insert name ⟨declaration, typeName⟩, enlist byType typeName name⟩

/-- The declaration registered under a name. -/
def get? (registry : Registry) (name : String) : Option Declaration :=
  (registry.byName.get? name).map (·.declaration)

/-- What changes a registry. -/
inductive Call where
  | register (name : String) (declaration : Declaration) (typeName : Option String)
  | clear
deriving DecidableEq

/-- Carry out a call. The answer to a registration is the declaration that it replaces, if there
is one. -/
def perform (registry : Registry) : Call → Option Declaration × Registry
  | .register name declaration typeName =>
    (registry.get? name, registry.register name declaration typeName)
  | .clear => (none, .empty)

/-- Carry out some calls, one after the other. -/
def performAll (registry : Registry) (calls : List Call) : Registry :=
  calls.foldl (fun registry call => (registry.perform call).2) registry

/-- Whether a name is registered. -/
def contains (registry : Registry) (name : String) : Bool :=
  registry.byName.contains name

/-- The number of registered names. -/
def size (registry : Registry) : Nat :=
  registry.byName.size

/-- Whether nothing is registered. -/
def isEmpty (registry : Registry) : Bool :=
  registry.byName.isEmpty

/-- The types that names are registered with, ascending. -/
def types (registry : Registry) : List String :=
  registry.byType.names

/-- Registered names with their declarations, ascending. -/
abbrev Listing := List (String × Declaration)

/-- All names with their declarations. -/
def declarations (registry : Registry) : Listing :=
  registry.byName.entries.map fun entry => (entry.1, entry.2.declaration)

/-- The names whose declarations have a scope with the given start. -/
def withScope (registry : Registry) (start : String) : Listing :=
  registry.declarations.filter fun entry => start.toList.isPrefixOf entry.2.scope.toList

/-- The names registered with a type. -/
def withType (registry : Registry) (typeName : String) : Listing :=
  (((registry.byType.get? typeName).map NameTable.names).getD []).filterMap fun name =>
    (registry.get? name).map fun declaration => (name, declaration)

/-- The names whose declarations have a logical id. -/
def holders (registry : Registry) (logicalId : String) : List String :=
  Entries.names (registry.declarations.filter fun entry => entry.2.logicalId = logicalId)

/-- The logical ids of all declarations, each once, ascending. -/
def logicalIds (registry : Registry) : List String :=
  (NameSet.ofList (registry.declarations.map (·.2.logicalId))).names

/-- The declared resources by their logical ids. No two names may hold the same logical id; the
least one that is shared is reported. -/
def snapshot (registry : Registry) : Except Error ResourceSet :=
  match registry.logicalIds.find? fun id => 1 < (registry.holders id).length with
  | some id => .error (.duplicateLogicalId id (registry.holders id))
  | none =>
    .ok (.ofList (registry.declarations.map fun entry => (entry.2.logicalId, entry.2.resource)))

end Registry

end CloudTemplate
