import CloudTemplate.Recovery.Settings
import CloudTemplate.Template.Basic

/-!
# Patterns of resource names

The texts by which resources are known without being referred to: the value of the name property
of a resource and the ARNs made from it. A template of `Fn::Sub` that equals such a text stands
for a dependency on the resource. A text that stands for several resources is only reported.
-/

namespace CloudTemplate

/-- A template of `Fn::Sub` that several resources may be known by. -/
structure AmbiguousMatch where
  source : String
  path : String
  pattern : String
  candidates : List String
deriving DecidableEq, Repr

namespace AmbiguousMatch

/-- An ambiguous match in words. -/
def describe (m : AmbiguousMatch) : String :=
  m.source ++ " at " ++ m.path ++ ": '" ++ m.pattern ++ "' matches " ++
    toString m.candidates.length ++ " resources (" ++ Text.commaJoin m.candidates ++
    "); no dependency recorded"

/-- Reports are ordered by source, path and pattern. -/
def isBefore (a b : AmbiguousMatch) : Bool :=
  ((compare a.source b.source).then <| (compare a.path b.path).then <|
    compare a.pattern b.pattern).isLE

/-- Matches in the order of reports. -/
def sorted (matches_ : List AmbiguousMatch) : List AmbiguousMatch :=
  matches_.mergeSort isBefore

end AmbiguousMatch

/-- A dependency that was recovered, and the path of the call that showed it. -/
structure RecoveredDependency where
  target : String
  path : String
deriving DecidableEq, Repr

/-- What was recovered from one resource. -/
structure Recovered where
  dependencies : List RecoveredDependency
  warnings : List AmbiguousMatch
deriving DecidableEq

/-- Which resources are known by a name, and which by an ARN. -/
structure PatternIndex where
  names : NameTable NameSet
  arns : NameTable NameSet
deriving DecidableEq

/-- Put a name in place of each placeholder, from the left. -/
def fillName (name : List Char) : List Char → List Char
  | '{' :: 'n' :: 'a' :: 'm' :: 'e' :: '}' :: rest => name ++ fillName name rest
  | c :: rest => c :: fillName name rest
  | [] => []

/-- The text of a name property, if it is known without running anything. -/
def Value.knownText? : Value → Option String
  | .string text => some text
  | .apply .sub [.string template] => some template
  | _ => none

namespace PatternIndex

/-- The index of no resource. -/
def empty : PatternIndex := ⟨.empty, .empty⟩

/-- Whether no resource is known by any text. -/
def isEmpty (index : PatternIndex) : Bool :=
  index.names.isEmpty && index.arns.isEmpty

/-- Add a resource to those known by a text. -/
def addTo (table : NameTable NameSet) (text id : String) : NameTable NameSet :=
  table.insert text (NameSet.add ((table.get? text).getD .empty) id)

/-- The name of a resource, as far as its convention and properties tell. -/
def nameOf? (settings : RecoverySettings) (r : Resource) : Option String := do
  let property ← settings.nameProperty? r.typeName
  let value ← r.properties.get? property
  value.knownText?

/-- The ARNs of a resource with a name. -/
def arnsOf (settings : RecoverySettings) (r : Resource) (name : String) : List String :=
  (settings.arnTemplatesOf r.typeName).map fun template =>
    String.ofList (fillName name.toList template.toList)

/-- Add a resource to an index. -/
def add (settings : RecoverySettings) (index : PatternIndex) (id : String) (r : Resource) :
    PatternIndex :=
  match nameOf? settings r with
  | none => index
  | some name =>
    ⟨addTo index.names name id,
      (arnsOf settings r name).foldl (fun table arn => addTo table arn id) index.arns⟩

/-- The index of a resource set. -/
def ofResources (settings : RecoverySettings) (resources : ResourceSet) : PatternIndex :=
  resources.entries.foldl (fun index entry => index.add settings entry.1 entry.2) empty

/-- The resources known by a text, apart from one. -/
def candidates (index : PatternIndex) (text excluded : String) : List String :=
  let found (table : NameTable NameSet) : List String :=
    ((table.get? text).map NameTable.names).getD []
  (NameSet.ofList (found index.names ++ found index.arns)).names.filter (· ≠ excluded)

/-- Whether a call of `Fn::Sub` tells nothing: it refers to a resource anyway, or it has
placeholders and all of them are parameters. Pseudo parameters do not count. -/
def isSkipped (scope : Scope) (call : Value) (template : String) : Bool :=
  let placeholders :=
    ((Placeholder.ofTemplate template).map Placeholder.name).filter
      fun name => !isPseudoParameter name
  (call.sites "").any (fun site => scope.isResource site.target) ||
    (!placeholders.isEmpty && placeholders.all scope.isParameter)

/-- What one node of a resource tells. -/
def recoverNode (index : PatternIndex) (scope : Scope) (id path : String) (node : Value) :
    Recovered :=
  match node.subTemplate? with
  | none => ⟨[], []⟩
  | some template =>
    if isSkipped scope node template then ⟨[], []⟩
    else
      match index.candidates template id with
      | [] => ⟨[], []⟩
      | [target] => ⟨[⟨target, path⟩], []⟩
      | several => ⟨[], [⟨id, path, template, several⟩]⟩

/-- What the properties of a resource tell, in document order. -/
def recover (index : PatternIndex) (scope : Scope) (id : String) (r : Resource) : Recovered :=
  if index.isEmpty then ⟨[], []⟩
  else
    let nodes := r.properties.entries.flatMap fun entry => entry.2.nodes ("Properties." ++ entry.1)
    let found := nodes.map fun node => index.recoverNode scope id node.1 node.2
    ⟨found.flatMap (·.dependencies), found.flatMap (·.warnings)⟩

end PatternIndex

end CloudTemplate
