import CloudTemplate.Error
import CloudTemplate.Template.Basic

/-!
# Writing templates

The document tree of every part of a template. References and calls become maps with a single key;
what is absent or empty is left out. Entries stand in the order in which templates are usually
written, not in the order of their names.
-/

namespace CloudTemplate

/-- A map with a single entry. -/
def Tree.single (key : String) (tree : Tree) : Tree :=
  .map [(key, tree)]

/-- The entries that are present. -/
def presentEntries (entries : List (String × Option Tree)) : List (String × Tree) :=
  entries.filterMap fun entry => entry.2.map fun tree => (entry.1, tree)

/-- The body of a call: a single argument stands alone where the function says so, and so does the
template of `Fn::Sub` without variables. -/
def callBody (f : Intrinsic) (arguments : List Tree) : Tree :=
  match arguments with
  | [argument] => if f.isBare || f = .sub then argument else .list [argument]
  | arguments => .list arguments

namespace Value

mutual

/-- The document tree of a value. -/
def toTree : Value → Tree
  | .null => .null
  | .bool value => .bool value
  | .number value => .number value
  | .string value => .string value
  | .list items => .list (toTrees items)
  | .map entries => .map (toTreeEntries entries)
  | .ref target => .single "Ref" (.string target)
  | .attr target name => .single "Fn::GetAtt" (.list [.string target, .string name])
  | .condition name => .single "Condition" (.string name)
  | .apply .ifElse (.condition name :: branches) =>
    .single Intrinsic.ifElse.key (callBody .ifElse (.string name :: toTrees branches))
  | .apply f arguments => .single f.key (callBody f (toTrees arguments))

/-- The document trees of a list of values. -/
def toTrees : List Value → List Tree
  | [] => []
  | item :: rest => toTree item :: toTrees rest

/-- The document trees of map entries. -/
def toTreeEntries : List (String × Value) → List (String × Tree)
  | [] => []
  | (name, item) :: rest => (name, toTree item) :: toTreeEntries rest

end

end Value

/-- The document trees of a table, or nothing for an empty one. -/
def NameTable.toTree? {α : Type} (write : α → Tree) (table : NameTable α) : Option Tree :=
  if table.isEmpty then none else some (.map (table.map write).entries)

/-- The document tree of a resource. -/
def Resource.toTree (r : Resource) : Tree :=
  .map <| presentEntries
    [("Type", some (.string r.typeName)),
      ("Properties", r.properties.toTree? Value.toTree),
      ("DependsOn",
        if r.dependsOn.isEmpty then none else some (.list (r.dependsOn.map .string))),
      ("Condition", r.condition.map .string),
      ("DeletionPolicy", r.deletionPolicy.map fun policy => .string policy.name),
      ("UpdateReplacePolicy", r.updateReplacePolicy.map fun policy => .string policy.name),
      ("CreationPolicy", r.creationPolicy),
      ("UpdatePolicy", r.updatePolicy),
      ("Metadata", r.metadata)]

/-- The document tree of a parameter. -/
def Parameter.toTree (p : Parameter) : Tree :=
  .map <| presentEntries
    [("Type", some (.string p.typeName)),
      ("Description", p.description.map .string),
      ("Default", p.default),
      ("AllowedValues", if p.allowedValues.isEmpty then none else some (.list p.allowedValues)),
      ("AllowedPattern", p.allowedPattern.map .string),
      ("MinLength", p.minLength.map .number),
      ("MaxLength", p.maxLength.map .number),
      ("MinValue", p.minValue.map .number),
      ("MaxValue", p.maxValue.map .number),
      ("ConstraintDescription", p.constraintDescription.map .string),
      ("NoEcho", if p.noEcho then some (.bool true) else none)]

/-- The document tree of an output. -/
def Output.toTree (o : Output) : Tree :=
  .map <| presentEntries
    [("Description", o.description.map .string),
      ("Value", some o.value.toTree),
      ("Export", o.exportName.map fun name => .single "Name" name.toTree),
      ("Condition", o.condition.map .string)]

/-- The document tree of a mapping. -/
def Mapping.toTree (m : Mapping) : Tree :=
  .map (m.map fun second => Tree.map second.entries).entries

/-- The resources of a set in a given order. -/
def ResourceSet.toTree (resources : ResourceSet) (order : List String) : Tree :=
  .map <| order.filterMap fun id => (resources.get? id).map fun r => (id, r.toTree)

/-- The document tree of a template, with its resources in a given order. -/
def Template.toTree (t : Template) (order : List String) : Tree :=
  .map <| presentEntries
    [("AWSTemplateFormatVersion", some (.string t.formatVersion)),
      ("Description", t.description.map .string),
      ("Metadata", t.metadata),
      ("Transform", t.transform),
      ("Parameters", t.parameters.toTree? Parameter.toTree),
      ("Rules", t.rules),
      ("Mappings", t.mappings.toTree? Mapping.toTree),
      ("Conditions", t.conditions.toTree? Value.toTree),
      ("Resources",
        if t.resources.isEmpty then none else some (ResourceSet.toTree t.resources order)),
      ("Outputs", t.outputs.toTree? Output.toTree)]

/-- The first fault of an order: an id that is foreign or has come before, and otherwise the least
id that is missing. -/
def orderFault? (ids order : List String) : Option OrderFault :=
  match go [] order with
  | some fault => some fault
  | none => (ids.find? fun id => !order.contains id).map .missing
where
  /-- Check the ids of an order behind those already seen. -/
  go (seen : List String) : List String → Option OrderFault
    | [] => none
    | id :: rest =>
      if !ids.contains id then some (.foreign id)
      else if seen.contains id then some (.repeated id)
      else go (id :: seen) rest

/-- The document tree of a resource set in a given order, which has to list each id once. -/
def ResourceSet.toDocumentTree (resources : ResourceSet) (order : List String) :
    Except Error Tree :=
  match orderFault? resources.names order with
  | some fault => .error (.invalidOrder fault)
  | none =>
    .ok <| .map
      [("AWSTemplateFormatVersion", .string Template.defaultFormatVersion),
        ("Resources", ResourceSet.toTree resources order)]

end CloudTemplate
