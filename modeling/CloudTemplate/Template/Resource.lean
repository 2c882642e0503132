import CloudTemplate.Reference.Value

/-!
# Resources

A resource declaration: its type, its properties and the attributes beside them. The logical id
under which it is declared is the key of the table that holds it.
-/

namespace CloudTemplate

/-- What happens to a physical resource when its declaration is deleted or replaced. -/
inductive DeletionPolicy where
  | delete
  | retain
  | retainExceptOnCreate
  | snapshot
deriving DecidableEq, Repr

namespace DeletionPolicy

/-- All policies. -/
def all : List DeletionPolicy := [.delete, .retain, .retainExceptOnCreate, .snapshot]

/-- The name of a policy in templates. -/
def name : DeletionPolicy → String
  | .delete => "Delete"
  | .retain => "Retain"
  | .retainExceptOnCreate => "RetainExceptOnCreate"
  | .snapshot => "Snapshot"

/-- The policy with a name. -/
def ofName? (name : String) : Option DeletionPolicy :=
  all.find? fun policy => policy.name = name

end DeletionPolicy

/-- A declared resource. -/
structure Resource where
  typeName : String
  properties : NameTable Value
  /-- Explicit dependencies, in the order of their declaration, none of them twice. -/
  dependsOn : List String
  /-- The condition under which the resource exists. -/
  condition : Option String
  deletionPolicy : Option DeletionPolicy
  updateReplacePolicy : Option DeletionPolicy
  metadata : Option Tree
  creationPolicy : Option Tree
  updatePolicy : Option Tree
deriving DecidableEq

/-- The resources of a template, each kept under its own logical id. A resource holds no id besides
this key, so whatever goes by the id of a resource goes by its key. -/
abbrev ResourceSet := NameTable Resource

/-- The texts between occurrences of `::`. -/
def typeSegments (seen : List Char) : List Char → List (List Char)
  | [] => [seen.reverse]
  | ':' :: ':' :: rest => seen.reverse :: typeSegments [] rest
  | c :: rest => typeSegments (c :: seen) rest

namespace Resource

/-- A resource with a type and nothing else. -/
def ofType (typeName : String) : Resource :=
  ⟨typeName, .empty, [], none, none, none, none, none, none⟩

/-- Set a property. -/
def withProperty (r : Resource) (name : String) (value : Value) : Resource :=
  { r with properties := r.properties.insert name value }

/-- Add an explicit dependency, unless it is there already. -/
def withDependency (r : Resource) (target : String) : Resource :=
  if r.dependsOn.contains target then r else { r with dependsOn := r.dependsOn ++ [target] }

/-- The second segment of the type, such as `S3` in `AWS::S3::Bucket`. -/
def service (r : Resource) : String :=
  match typeSegments [] r.typeName.toList with
  | _ :: second :: _ => String.ofList second
  | _ => ""

/-- The last segment of the type, such as `Bucket` in `AWS::S3::Bucket`; separators are looked for
from the end. -/
def shortType (r : Resource) : String :=
  match typeSegments [] r.typeName.toList.reverse with
  | last :: _ => String.ofList last.reverse
  | [] => r.typeName

end Resource

end CloudTemplate
