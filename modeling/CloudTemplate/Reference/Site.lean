import CloudTemplate.Reference.Placeholder
import CloudTemplate.Reference.Value

/-!
# References and where they stand

Every node of a value has a path: list items add `[i]`, map entries and function keys add `.key`.
A call with one argument has that argument directly under its key. The references of a value are
listed in document order, each with the path of its node.
-/

namespace CloudTemplate

/-- How a reference is written. -/
inductive ReferenceForm where
  | ref
  | attr (name : String)
  | condition
  | placeholder (attr : Option String)
deriving DecidableEq, Repr

/-- Only resources have attributes. -/
def ReferenceForm.requiresResource : ReferenceForm → Bool
  | .attr _ => true
  | .placeholder (some _) => true
  | _ => false

/-- A reference and the path of the node that holds it. -/
structure ReferenceSite where
  path : String
  target : String
  form : ReferenceForm
deriving DecidableEq, Repr

/-- A reference in words. -/
def ReferenceSite.describe (site : ReferenceSite) : String :=
  let what :=
    match site.form with
    | .ref => "Ref " ++ site.target
    | .attr name | .placeholder (some name) => site.target ++ "." ++ name
    | .condition => "Condition " ++ site.target
    | .placeholder none => "$\x7b" ++ site.target ++ "\x7d"
  what ++ " at " ++ site.path

/-- The path of a named child. -/
def childPath (path name : String) : String :=
  if path.isEmpty then name else path ++ "." ++ name

/-- The path of a list item. -/
def itemPath (path : String) (index : Nat) : String :=
  path ++ "[" ++ toString index ++ "]"

namespace Value

mutual

/-- The nodes of a value with their paths, in document order. -/
def nodes (path : String) : Value → List (String × Value)
  | .list items => (path, .list items) :: nodesOfItems path 0 items
  | .map entries => (path, .map entries) :: nodesOfEntries path entries
  | .apply f [argument] =>
    (path, .apply f [argument]) :: nodes (childPath path f.key) argument
  | .apply f arguments =>
    (path, .apply f arguments) :: nodesOfItems (childPath path f.key) 0 arguments
  | .null => [(path, .null)]
  | .bool value => [(path, .bool value)]
  | .number value => [(path, .number value)]
  | .string value => [(path, .string value)]
  | .ref target => [(path, .ref target)]
  | .attr target name => [(path, .attr target name)]
  | .condition name => [(path, .condition name)]

/-- The nodes of list items, the first of which has the given index. -/
def nodesOfItems (path : String) (index : Nat) : List Value → List (String × Value)
  | [] => []
  | item :: rest => nodes (itemPath path index) item ++ nodesOfItems path (index + 1) rest

/-- The nodes of map entries. -/
def nodesOfEntries (path : String) : List (String × Value) → List (String × Value)
  | [] => []
  | (name, item) :: rest => nodes (childPath path name) item ++ nodesOfEntries path rest

end

/-- The references in the template of a call of `Fn::Sub`, apart from pseudo parameters and the
call's own variables. -/
def placeholderSites (path : String) (value : Value) : List ReferenceSite :=
  match value.subTemplate? with
  | none => []
  | some template =>
    let bound := (value.subVariables?).getD []
    (Placeholder.ofTemplate template).filterMap fun placeholder =>
      if isPseudoParameter placeholder.name || Entries.hasName placeholder.name bound then none
      else some ⟨path, placeholder.name, .placeholder placeholder.attr⟩

/-- The references that a node makes by itself. -/
def ownSites (path : String) : Value → List ReferenceSite
  | .ref target => [⟨path, target, .ref⟩]
  | .attr target name => [⟨path, target, .attr name⟩]
  | .condition name => [⟨path, name, .condition⟩]
  | .apply f arguments => placeholderSites path (.apply f arguments)
  | _ => []

/-- All references of a value, in document order. -/
def sites (path : String) (value : Value) : List ReferenceSite :=
  (value.nodes path).flatMap fun node => node.2.ownSites node.1

/-- The names that a value refers to. -/
def references (value : Value) : NameSet :=
  NameSet.ofList ((value.sites "").map ReferenceSite.target)

/-- Whether a value refers to nothing. -/
def isLiteral (value : Value) : Bool :=
  value.references.isEmpty

end Value

end CloudTemplate
