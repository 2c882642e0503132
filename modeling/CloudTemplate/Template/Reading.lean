import CloudTemplate.Error
import CloudTemplate.Json.Numeral
import CloudTemplate.Json.Writer
import CloudTemplate.Template.Basic
import CloudTemplate.Text.Quoted

/-!
# Reading templates

A template is read from a document tree. The positions of the tree with a fixed schema are checked
against it; every other value becomes a template value, in which maps with a single reference or
function key become references and calls. Names are looked at in ascending order, so the first
fault found is the one under the least name.
-/

namespace CloudTemplate

/-- The sections of a template. -/
def templateSections : List String :=
  ["AWSTemplateFormatVersion", "Description", "Metadata", "Parameters", "Rules", "Mappings",
    "Conditions", "Transform", "Resources", "Outputs"]

/-- The attributes of a resource. -/
def resourceAttributes : List String :=
  ["Type", "Properties", "DependsOn", "Condition", "DeletionPolicy", "UpdateReplacePolicy",
    "Metadata", "CreationPolicy", "UpdatePolicy"]

/-- The start of the names of loops, which are passed over. -/
def loopStart : String := "Fn::ForEach::"

namespace Reading

/-- A value of the wrong kind. -/
def wrongKind {α : Type} (path expected : String) (found : Tree) : Except Error α :=
  .error (.atPath path (.wrongKind expected found.kind))

/-- The entries of a mapping; a missing value counts as an empty mapping. -/
def mapping (path : String) : Tree → Except Error (Entries Tree)
  | .map entries => .ok entries
  | .null => .ok []
  | other => wrongKind path "a mapping" other

/-- The text of a string. -/
def string (path : String) : Tree → Except Error String
  | .string text => .ok text
  | other => wrongKind path "a string" other

/-- The path of a named child, which always has a dot before the name. -/
def below (path name : String) : String :=
  path ++ "." ++ name

/-- The target and attribute of `Fn::GetAtt`, written with a dot or as a list of two. -/
def attributePath (path : String) : Tree → Except Error Value
  | .string text =>
    match Placeholder.splitAtDot text.toList with
    | (target@(_ :: _), some attr@(_ :: _)) =>
      .ok (.attr (String.ofList target) (String.ofList attr))
    | _ => .error (.atPath path (.notAttributePath text))
  | .list [target, name] =>
    match string (itemPath path 0) target with
    | .error e => .error e
    | .ok target =>
      match name with
      | .string name => .ok (.attr target name)
      | other => .error (.atPath (itemPath path 1) (.attributeNotLiteral other.kind))
  | other => wrongKind path "'Resource.Attribute' or [Resource, Attribute]" other

/-- `Fn::If` names its condition by a bare string. -/
def withConditionName (f : Intrinsic) (arguments : List Value) : List Value :=
  match f, arguments with
  | .ifElse, .string name :: rest => .condition name :: rest
  | _, _ => arguments

/-- Call a function whose key has the given path. -/
def call (path : String) (f : Intrinsic) (arguments : List Value) : Except Error Value :=
  (Value.call f (withConditionName f arguments)).mapError fun fault =>
    .invalidCall f fault (some path)

/-- How the single entry of a map is read. -/
inductive SingleKey where
  | ref
  | attr
  | condition
  | call (f : Intrinsic)
  | unsupported
  | plain

/-- A map with a single entry is a reference or a call if its key says so. A condition has to be
named by a string, because a `Condition` key is also used by policy statements. -/
def singleKey (key : String) (item : Tree) : SingleKey :=
  if key = "Ref" then .ref
  else if key = "Fn::GetAtt" then .attr
  else if key = "Condition" then
    match item with
    | .string _ => .condition
    | _ => .plain
  else if Intrinsic.keyStart.isPrefixOf key then
    match Intrinsic.ofKey? key with
    | some f => .call f
    | none => .unsupported
  else .plain

mutual

/-- Read a value. -/
def value (path : String) : Tree → Except Error Value
  | .null => .ok .null
  | .bool b => .ok (.bool b)
  | .number n => .ok (.number n)
  | .string text => .ok (.string text)
  | .list trees => (items path 0 trees).map .list
  | .map [(key, item)] =>
    let keyPath := below path key
    match singleKey key item with
    | .ref => (string keyPath item).map .ref
    | .attr => attributePath keyPath item
    | .condition => (string keyPath item).map .condition
    | .unsupported => .error (.unsupportedIntrinsic key keyPath)
    | .plain => (value keyPath item).map fun v => .map [(key, v)]
    | .call f =>
      match item with
      | .list trees =>
        match items keyPath 0 trees with
        | .error e => .error e
        | .ok values => call keyPath f (if f.isBare then [.list values] else values)
      | other =>
        if f.isBare || f = .sub then
          match value keyPath other with
          | .error e => .error e
          | .ok argument => call keyPath f [argument]
        else wrongKind keyPath "a list of arguments" other
  | .map trees => (entries path trees).map .map

/-- Read the items of a list, the first of which has the given index. -/
def items (path : String) (index : Nat) : List Tree → Except Error (List Value)
  | [] => .ok []
  | tree :: rest =>
    match value (itemPath path index) tree with
    | .error e => .error e
    | .ok v => (items path (index + 1) rest).map (v :: ·)

/-- Read the entries of a map. -/
def entries (path : String) : List (String × Tree) → Except Error (List (String × Value))
  | [] => .ok []
  | (name, tree) :: rest =>
    match value (below path name) tree with
    | .error e => .error e
    | .ok v => (entries path rest).map ((name, v) :: ·)

end

/-- Read the values of a table with a reader that is given each name. -/
def table {α : Type} (read : String → Tree → Except Error α) :
    Entries Tree → Except Error (NameTable α)
  | entries => entries.foldlM (fun found entry => do
      let item ← read entry.1 entry.2
      return found.insert entry.1 item) .empty

/-- A numeric constraint, which may be written as a string. -/
def constraint : Tree → Except ParameterFault (Option Number)
  | .null => .ok none
  | .number n => .ok (some n)
  | .string text =>
    match Json.numberOfText? (Text.trim text) with
    | some n => .ok (some n)
    | none => .error (.notNumber ("'" ++ text ++ "'"))
  | other => .error (.notNumber (Json.compact other))

/-- A text in lower case, as far as ASCII letters go. -/
def lowerCase (text : String) : String :=
  text.map Char.toLower

/-- A flag, which may be written as a string. -/
def flag : Tree → Except ParameterFault Bool
  | .bool b => .ok b
  | .string text =>
    if lowerCase text = "true" then .ok true
    else if lowerCase text = "false" then .ok false
    else .error (.notBoolean (Json.compact (.string text)))
  | other => .error (.notBoolean (Json.compact other))

/-- A text in a parameter. -/
def parameterText : Tree → Except ParameterFault String
  | .string text => .ok text
  | other => .error (.wrongKind other.foreignKind "a string")

/-- A text in a parameter that may be missing. -/
def optionalText : Tree → Except ParameterFault (Option String)
  | .null => .ok none
  | other => (parameterText other).map some

/-- Set one field of a parameter. -/
def parameterField (p : Parameter) (name : String) (tree : Tree) :
    Except ParameterFault Parameter :=
  match name with
  | "Type" => (parameterText tree).map fun text => { p with typeName := text }
  | "Description" => (optionalText tree).map fun text => { p with description := text }
  | "Default" =>
    match tree with
    | .null => .ok { p with default := none }
    | other => .ok { p with default := some other }
  | "AllowedValues" =>
    match tree with
    | .list trees => .ok { p with allowedValues := trees }
    | other => .error (.wrongKind other.foreignKind "a sequence")
  | "AllowedPattern" => (optionalText tree).map fun text => { p with allowedPattern := text }
  | "MinLength" => (constraint tree).map fun n => { p with minLength := n }
  | "MaxLength" => (constraint tree).map fun n => { p with maxLength := n }
  | "MinValue" => (constraint tree).map fun n => { p with minValue := n }
  | "MaxValue" => (constraint tree).map fun n => { p with maxValue := n }
  | "ConstraintDescription" =>
    (optionalText tree).map fun text => { p with constraintDescription := text }
  | "NoEcho" => (flag tree).map fun b => { p with noEcho := b }
  | other => .error (.unknownField other)

/-- Read a parameter declaration. -/
def parameter (logicalId : String) (tree : Tree) : Except Error Parameter :=
  let path := "Parameters." ++ logicalId
  match tree with
  | .map fields =>
    let result := fields.foldlM (fun p field => parameterField p field.1 field.2)
      (Parameter.ofType "String")
    result.mapError fun fault => .atPath path (.parameter fault)
  | other => wrongKind path "a mapping" other

/-- Read a mapping with its two levels of keys. -/
def twoLevels (name : String) (tree : Tree) : Except Error Mapping := do
  let path := "Mappings." ++ name
  let first ← mapping path tree
  table (fun key inner => do
    let second ← mapping (below path key) inner
    return NameTable.ofList second) first

/-- Read a deletion policy. -/
def policy (path : String) (tree : Tree) : Except Error DeletionPolicy := do
  let name ← string path tree
  match DeletionPolicy.ofName? name with
  | some policy => return policy
  | none => .error (.atPath path (.unknownPolicy name))

/-- Read the targets of `DependsOn`. -/
def dependencies (path : String) (r : Resource) : Tree → Except Error Resource
  | .string target => .ok (r.withDependency target)
  | .list targets => go r 0 targets
  | other => wrongKind path "a string or list of strings" other
where
  /-- Add the targets of a list, the first of which has the given index. -/
  go (r : Resource) (index : Nat) : List Tree → Except Error Resource
    | [] => .ok r
    | target :: rest =>
      match string (itemPath path index) target with
      | .error e => .error e
      | .ok target => go (r.withDependency target) (index + 1) rest

/-- Set one attribute of a resource, other than its type. -/
def resourceAttribute (path : String) (r : Resource) (name : String) (tree : Tree) :
    Except Error Resource :=
  let path := below path name
  match name with
  | "Properties" => do
    let trees ← mapping path tree
    let found ← table (fun property => value (below path property)) trees
    return { r with properties := found }
  | "DependsOn" => dependencies path r tree
  | "Condition" => (string path tree).map fun text => { r with condition := some text }
  | "DeletionPolicy" => (policy path tree).map fun p => { r with deletionPolicy := some p }
  | "UpdateReplacePolicy" =>
    (policy path tree).map fun p => { r with updateReplacePolicy := some p }
  | "Metadata" => .ok { r with metadata := some tree }
  | "CreationPolicy" => .ok { r with creationPolicy := some tree }
  | "UpdatePolicy" => .ok { r with updatePolicy := some tree }
  | _ => .ok r

/-- Read a resource declaration. -/
def resource (logicalId : String) (tree : Tree) : Except Error Resource := do
  let path := "Resources." ++ logicalId
  match tree with
  | .map attributes =>
    match (Entries.names attributes).find? fun name => !resourceAttributes.contains name with
    | some unknown => .error (.atPath (below path unknown) (.unknownAttribute unknown))
    | none =>
      match Entries.lookup "Type" attributes with
      | none => .error (.atPath path (.missingType logicalId))
      | some tree =>
        let typeName ← string (below path "Type") tree
        attributes.foldlM (fun r entry => resourceAttribute path r entry.1 entry.2)
          (Resource.ofType typeName)
  | other => wrongKind path "a mapping" other

/-- Set one attribute of an output, other than its value. -/
def outputAttribute (path : String) (output : Output) (name : String) (tree : Tree) :
    Except Error Output :=
  let path := below path name
  match name with
  | "Value" => .ok output
  | "Description" => (string path tree).map fun text => { output with description := some text }
  | "Condition" => (string path tree).map fun text => { output with condition := some text }
  | "Export" => do
    let entries ← mapping path tree
    match Entries.lookup "Name" entries with
    | none => .error (.atPath path .missingExportName)
    | some tree =>
      let exported ← value (below path "Name") tree
      return { output with exportName := some exported }
  | other => .error (.atPath path (.unknownOutputAttribute other))

/-- Read an output declaration. -/
def output (logicalId : String) (tree : Tree) : Except Error Output := do
  let path := "Outputs." ++ logicalId
  match tree with
  | .map attributes =>
    match Entries.lookup "Value" attributes with
    | none => .error (.atPath path (.missingValue logicalId))
    | some tree =>
      let found ← value (below path "Value") tree
      attributes.foldlM (fun o entry => outputAttribute path o entry.1 entry.2)
        ⟨found, none, none, none⟩
  | other => wrongKind path "a mapping" other

/-- The entries of a section that are no loops. -/
def declarations (name : String) (tree : Tree) : Except Error (Entries Tree) :=
  (mapping name tree).map fun entries =>
    entries.filter fun entry => !loopStart.isPrefixOf entry.1

/-- Set one section of a template. -/
def templateSection (t : Template) (name : String) (tree : Tree) : Except Error Template :=
  match name with
  | "AWSTemplateFormatVersion" =>
    match tree with
    | .string text => .ok { t with formatVersion := text }
    | .number n => .ok { t with formatVersion := n.jsonText }
    | other => wrongKind name "a string" other
  | "Description" => (string name tree).map fun text => { t with description := some text }
  | "Metadata" => .ok { t with metadata := some tree }
  | "Transform" => .ok { t with transform := some tree }
  | "Rules" => .ok { t with rules := some tree }
  | "Parameters" => do
    let found ← table parameter (← mapping name tree)
    return { t with parameters := found }
  | "Mappings" => do
    let found ← table twoLevels (← mapping name tree)
    return { t with mappings := found }
  | "Conditions" => do
    let found ← table (fun c => value ("Conditions." ++ c)) (← mapping name tree)
    return { t with conditions := found }
  | "Resources" => do
    let found ← table resource (← declarations name tree)
    return { t with resources := found }
  | "Outputs" => do
    let found ← table output (← declarations name tree)
    return { t with outputs := found }
  | _ => .ok t

/-- The names that a template declares in a namespace. -/
def declared (t : Template) : Namespace → List String
  | .parameter => t.parameters.names
  | .condition => t.conditions.names
  | .resource => t.resources.names

/-- Parameters, conditions and resources share their names: no name may be declared in two of
these namespaces. The pairs of namespaces are looked at in the order of the list. -/
def namespacePairs : List (Namespace × Namespace) :=
  [(.parameter, .condition), (.parameter, .resource), (.condition, .resource)]

/-- The first name that is declared in two namespaces. -/
def clash? (t : Template) : Option (String × Namespace × Namespace) :=
  namespacePairs.findSome? fun (first, second) =>
    ((declared t first).find? fun name => (declared t second).contains name).map
      fun name => (name, first, second)

end Reading

namespace Template

/-- Read a template from a document tree. -/
def ofTree (tree : Tree) : Except Error Template := do
  match tree with
  | .map sections =>
    if Entries.hasName "apiVersion" sections && Entries.hasName "kind" sections then
      .error (.atPath "" .manifest)
    else
      match (Entries.names sections).find? fun name => !templateSections.contains name with
      | some unknown => .error (.atPath unknown (.unknownSection unknown))
      | none =>
        let t ← sections.foldlM (fun t entry => Reading.templateSection t entry.1 entry.2) .empty
        match Reading.clash? t with
        | some (name, first, second) =>
          .error (.atPath (second.sectionName ++ "." ++ name) (.declaredTwice name first second))
        | none => return t
  | other => .error (.atPath "" (.notMapping other.kind))

end Template

end CloudTemplate
