import CloudTemplate.Json.Cursor

/-!
# Faults of templates

What can be wrong with a template document, apart from its use of intrinsic functions, and the
words for it.
-/

namespace CloudTemplate

/-- What can be wrong with a parameter declaration. -/
inductive ParameterFault where
  | unknownField (name : String)
  | wrongKind (found expected : String)
  | notNumber (found : String)
  | notBoolean (found : String)
deriving DecidableEq, Repr

namespace ParameterFault

/-- The fields of a parameter declaration. -/
def fields : List String :=
  ["Type", "Description", "Default", "AllowedValues", "AllowedPattern", "MinLength", "MaxLength",
    "MinValue", "MaxValue", "ConstraintDescription", "NoEcho"]

/-- The words for a fault in a parameter. -/
def message : ParameterFault → String
  | .unknownField name =>
    "unknown field \x60" ++ name ++ "\x60, expected one of " ++
      ", ".intercalate (fields.map fun field => "\x60" ++ field ++ "\x60")
  | .wrongKind found expected => "invalid type: " ++ found ++ ", expected " ++ expected
  | .notNumber found => "expected a number, found " ++ found
  | .notBoolean found => "expected a boolean, found " ++ found

end ParameterFault

/-- What shares the names of resources. -/
inductive Namespace where
  | parameter
  | condition
  | resource
deriving DecidableEq, Repr

namespace Namespace

/-- The word for a declared thing. -/
def describe : Namespace → String
  | .parameter => "parameter"
  | .condition => "condition"
  | .resource => "resource"

/-- The section that declares it. -/
def sectionName : Namespace → String
  | .parameter => "Parameters"
  | .condition => "Conditions"
  | .resource => "Resources"

end Namespace

/-- What can be wrong with a template document. -/
inductive TemplateFault where
  /-- The text is no JSON. -/
  | jsonSyntax (error : Json.SyntaxError)
  /-- The text is no YAML document. -/
  | yamlSyntax
  | notMapping (found : String)
  /-- The document is a manifest of another kind. -/
  | manifest
  | unknownSection (name : String)
  | wrongKind (expected found : String)
  | duplicateKey (name : String)
  | unsupportedKey (text : String)
  | notFinite (text : String)
  | declaredTwice (name : String) (first second : Namespace)
  | parameter (fault : ParameterFault)
  | unknownPolicy (name : String)
  | unknownAttribute (name : String)
  | missingType (logicalId : String)
  | missingValue (logicalId : String)
  | missingExportName
  | unknownOutputAttribute (name : String)
  | notAttributePath (text : String)
  | attributeNotLiteral (found : String)
deriving DecidableEq

/-- The words for a policy name that does not exist. -/
def unknownPolicyMessage (name : String) : String :=
  "unknown deletion policy '" ++ name ++
    "' (expected Delete, Retain, RetainExceptOnCreate or Snapshot)"

/-- The words for a fault in a template. -/
def TemplateFault.message : TemplateFault → String
  | .jsonSyntax error => error.message
  | .yamlSyntax => "invalid YAML document"
  | .notMapping found => "template must be a mapping, found " ++ found
  | .manifest =>
    "document looks like a Kubernetes manifest (apiVersion/kind), not an infrastructure template"
  | .unknownSection name => "unknown top-level section '" ++ name ++ "'"
  | .wrongKind expected found => "expected " ++ expected ++ ", found " ++ found
  | .duplicateKey name => "duplicate key '" ++ name ++ "'"
  | .unsupportedKey text => "unsupported mapping key " ++ text
  | .notFinite text => "non-finite number " ++ text
  | .declaredTwice name first second =>
    "duplicate logical id '" ++ name ++ "' is declared as both a " ++ first.describe ++ " and a " ++
      second.describe
  | .parameter fault => fault.message
  | .unknownPolicy name => unknownPolicyMessage name
  | .unknownAttribute name => "unknown resource attribute '" ++ name ++ "'"
  | .missingType logicalId => "resource '" ++ logicalId ++ "' is missing a Type"
  | .missingValue logicalId => "output '" ++ logicalId ++ "' is missing a Value"
  | .missingExportName => "export is missing a Name"
  | .unknownOutputAttribute name => "unknown output attribute '" ++ name ++ "'"
  | .notAttributePath text => "expected 'Resource.Attribute', found '" ++ text ++ "'"
  | .attributeNotLiteral found => "attribute name must be a literal string, found " ++ found

end CloudTemplate
