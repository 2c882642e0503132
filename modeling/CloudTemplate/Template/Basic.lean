import CloudTemplate.Template.Resource

/-!
# Templates

A template with all its sections. Metadata, transforms and rules are kept as they stand.
-/

namespace CloudTemplate

/-- A template parameter. -/
structure Parameter where
  typeName : String
  description : Option String
  default : Option Tree
  allowedValues : List Tree
  allowedPattern : Option String
  minLength : Option Number
  maxLength : Option Number
  minValue : Option Number
  maxValue : Option Number
  constraintDescription : Option String
  noEcho : Bool
deriving DecidableEq

/-- A parameter with a type and nothing else. -/
def Parameter.ofType (typeName : String) : Parameter :=
  ⟨typeName, none, none, [], none, none, none, none, none, none, false⟩

/-- A template output. -/
structure Output where
  value : Value
  description : Option String
  /-- The name under which the value is exported. -/
  exportName : Option Value
  condition : Option String
deriving DecidableEq

/-- Literal values under a first and a second key. -/
abbrev Mapping := NameTable (NameTable Tree)

/-- A whole template. -/
structure Template where
  formatVersion : String
  description : Option String
  metadata : Option Tree
  transform : Option Tree
  parameters : NameTable Parameter
  rules : Option Tree
  mappings : NameTable Mapping
  conditions : NameTable Value
  resources : ResourceSet
  outputs : NameTable Output
deriving DecidableEq

namespace Template

/-- The format version of a template that names none. -/
def defaultFormatVersion : String := "2010-09-09"

/-- The template with a set of resources and nothing else. -/
def ofResources (resources : ResourceSet) : Template :=
  ⟨defaultFormatVersion, none, none, none, .empty, none, .empty, .empty, resources, .empty⟩

/-- The template without any declaration. -/
def empty : Template := ofResources .empty

end Template

end CloudTemplate
