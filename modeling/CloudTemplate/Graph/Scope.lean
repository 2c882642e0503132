import CloudTemplate.NameTable
import CloudTemplate.Reference.Site
import CloudTemplate.Text.Distance
import CloudTemplate.Text.Lines

/-!
# Scopes

The names that references may use, what a reference resolves to, and what is reported about a
reference whose target is not in scope.
-/

namespace CloudTemplate

/-- What a reference has to name. -/
inductive ExpectedTarget where
  | resource
  | resourceOrParameter
  | condition
deriving DecidableEq, Repr

namespace ExpectedTarget

/-- The words for an expected target. -/
def describe : ExpectedTarget → String
  | .resource => "resource"
  | .resourceOrParameter => "resource or parameter"
  | .condition => "condition"

/-- The place in reports: resources, then resources or parameters, then conditions. -/
def rank : ExpectedTarget → Nat
  | .resource => 0
  | .resourceOrParameter => 1
  | .condition => 2

end ExpectedTarget

/-- A reference whose target is not in scope. -/
structure UnresolvedReference where
  /-- The resource, condition or output that holds the reference. -/
  source : String
  path : String
  target : String
  expected : ExpectedTarget
  /-- Similar names that are in scope. -/
  suggestions : List String
deriving DecidableEq, Repr

namespace UnresolvedReference

/-- An unresolved reference in words. -/
def describe (r : UnresolvedReference) : String :=
  r.source ++ " references '" ++ r.target ++ "' at " ++ r.path ++ ", but no " ++
    r.expected.describe ++ " has that name" ++
    if r.suggestions.isEmpty then ""
    else
      " (did you mean " ++ Text.commaJoin (r.suggestions.map fun s => "'" ++ s ++ "'") ++ "?)"

/-- Reports are ordered by source, path, target and expected kind. -/
def isBefore (a b : UnresolvedReference) : Bool :=
  ((compare a.source b.source).then <| (compare a.path b.path).then <|
    (compare a.target b.target).then <| compare a.expected.rank b.expected.rank).isLE

/-- References in the order of reports. -/
def sorted (references : List UnresolvedReference) : List UnresolvedReference :=
  references.mergeSort isBefore

end UnresolvedReference

/-- The names that references may use. -/
structure Scope where
  resources : NameSet
  parameters : NameSet
  conditions : NameSet
deriving DecidableEq

/-- What the target of a reference is. -/
inductive Resolution where
  | resource
  | parameter
  | condition
  | missing (expected : ExpectedTarget)
deriving DecidableEq, Repr

namespace Scope

/-- Whether a resource has the name. -/
def isResource (scope : Scope) (name : String) : Bool :=
  scope.resources.contains name

/-- Whether a declared parameter or a pseudo parameter has the name. -/
def isParameter (scope : Scope) (name : String) : Bool :=
  scope.parameters.contains name || isPseudoParameter name

/-- Whether a condition has the name. -/
def isCondition (scope : Scope) (name : String) : Bool :=
  scope.conditions.contains name

/-- Find the target of a reference. Conditions are a world of their own; elsewhere a resource goes
before a parameter of the same name. -/
def resolve (scope : Scope) (target : String) (form : ReferenceForm) : Resolution :=
  if form = .condition then
    if scope.isCondition target then .condition else .missing .condition
  else if scope.isResource target then .resource
  else if form.requiresResource then .missing .resource
  else if scope.isParameter target then .parameter
  else .missing .resourceOrParameter

/-- The names among which suggestions are looked for. -/
def candidates (scope : Scope) : ExpectedTarget → List String
  | .resource => scope.resources.names
  | .resourceOrParameter => scope.resources.names ++ scope.parameters.names
  | .condition => scope.conditions.names

/-- The greatest distance of a suggestion, in percent of the size of the target. -/
def similarityPercent : Nat := 50

/-- Up to three names in scope that are close to a missing one, the closest first; names at the
same distance are in ascending order. The size of the missing name is its count of bytes. -/
def suggestions (scope : Scope) (target : String) (expected : ExpectedTarget) : List String :=
  let scored := (scope.candidates expected).map fun name => (Text.distance target name, name)
  let ordered := scored.mergeSort fun a b =>
    ((compare a.1 b.1).then (compare a.2 b.2)).isLE
  let near := ordered.filter fun entry =>
    entry.1 ≤ target.utf8ByteSize * similarityPercent / 100
  (near.take 3).map Prod.snd

/-- Report a missing target. -/
def report (scope : Scope) (source path target : String) (expected : ExpectedTarget) :
    UnresolvedReference :=
  ⟨source, path, target, expected, scope.suggestions target expected⟩

end Scope

end CloudTemplate
