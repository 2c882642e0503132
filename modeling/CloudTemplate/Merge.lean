import CloudTemplate.Document
import CloudTemplate.Error.Explanation
import CloudTemplate.Registry.Unit

/-!
# Merged templates

Several units as one template. No resource may be declared by two units; of parameters, mappings,
conditions and outputs with the same name the last one counts, and of descriptions the first.
Other sections are not merged.

Main definitions: `sharedResources` finds what stands against a merge, and `Template.merge` does
it.
-/

namespace CloudTemplate

/-- The names that several units registered, with the names of the units. -/
def sharedResources (units : List LoadedUnit) : NameTable NameSet :=
  let holders := units.foldl
    (fun holders u => u.registered.foldl
      (fun holders name =>
        holders.insert name (NameSet.add ((holders.get? name).getD .empty) u.name)) holders)
    NameTable.empty
  holders.filter fun entry => 1 < entry.2.size

/-- The words for resources that several units declare. -/
def sharedMessage (shared : NameTable NameSet) : String :=
  "Resources declared in more than one file:\n" ++
    Text.bulletLines (shared.entries.map fun entry =>
      entry.1 ++ " (" ++ Text.commaJoin entry.2.names ++ ")")

namespace Template

/-- Add what a unit declares beside its resources. -/
def absorb (merged context : Template) : Template :=
  { merged with
    description := merged.description.or context.description
    parameters := merged.parameters.union context.parameters
    mappings := merged.mappings.union context.mappings
    conditions := merged.conditions.union context.conditions
    outputs := merged.outputs.union context.outputs }

/-- What some units declare beside their resources. -/
def mergeContexts (units : List LoadedUnit) : Template :=
  units.foldl (fun merged u => merged.absorb u.context) .empty

/-- Merge some units, whose resources are in a registry. -/
def mergeLoaded (registry : Registry) (units : List LoadedUnit) : Except Failure Template := do
  let shared := sharedResources units
  if shared.isEmpty then
    let resources ← registry.snapshot.mapError Failure.ofError
    return { mergeContexts units with resources }
  else .error ⟨.message (sharedMessage shared), []⟩

/-- Merge some units. -/
def merge (units : List DeclarationUnit) : Except Failure Template :=
  mergeLoaded (DeclarationUnit.registerAll .empty units) (units.map DeclarationUnit.loaded)

end Template

end CloudTemplate
