import CloudTemplate.Catalog.Property
import CloudTemplate.Error.Fault
import CloudTemplate.Graph.Scope
import CloudTemplate.Location

/-!
# Errors

Everything that can go wrong in this library, by cause, and the words for each cause.
-/

namespace CloudTemplate

/-- Why an order of resources was refused. -/
inductive OrderFault where
  | foreign (logicalId : String)
  | repeated (logicalId : String)
  | missing (logicalId : String)
deriving DecidableEq, Repr

/-- The words for a refused order. -/
def OrderFault.reason : OrderFault → String
  | .foreign logicalId => "'" ++ logicalId ++ "' is not in the resource set"
  | .repeated logicalId => "'" ++ logicalId ++ "' appears more than once"
  | .missing logicalId => "'" ++ logicalId ++ "' is missing from the order"

/-- Why a configuration was refused. -/
inductive ConfigFault where
  | emptyNameProperty (typeName : String)
  | templateWithoutName (template typeName : String)
  | other (message : String)
deriving DecidableEq, Repr

/-- The words for a refused configuration. -/
def ConfigFault.message : ConfigFault → String
  | .emptyNameProperty typeName => "recovery.name_properties.\"" ++ typeName ++ "\" is empty"
  | .templateWithoutName template typeName =>
    "ARN template '" ++ template ++ "' for " ++ typeName ++ " has no \x7bname\x7d placeholder"
  | .other message => message

/-- Why a file could not be read or written. -/
inductive FileFault where
  | notFound
  | notDirectory
  | isDirectory
  | nameTooLong
  /-- The path has a zero character. -/
  | zeroInPath
  /-- The file is no text in UTF-8. -/
  | notText
  | other (message : String)
deriving DecidableEq, Repr

/-- The words for a file that could not be read or written. -/
def FileFault.message : FileFault → String
  | .notFound => "No such file or directory (os error 2)"
  | .notDirectory => "Not a directory (os error 20)"
  | .isDirectory => "Is a directory (os error 21)"
  | .nameTooLong => "File name too long (os error 36)"
  | .zeroInPath => "file name contained an unexpected NUL byte"
  | .notText => "stream did not contain valid UTF-8"
  | .other message => message

/-- Everything that can go wrong. -/
inductive Error where
  /-- A faulty template, and the file that holds it where several were read. -/
  | parse (place : Location) (fault : TemplateFault) (file : Option String)
  | unsupportedIntrinsic (tag context : String)
  /-- A faulty call, and its path where it stands in a document. -/
  | invalidCall (function : Intrinsic) (fault : CallFault) (path : Option String)
  | unresolvedReferences (references : List UnresolvedReference)
  | selfReference (logicalId path : String)
  | circularDependency (cycles : List (List String))
  | unknownProperties (properties : List UnknownProperty)
  | invalidOrder (fault : OrderFault)
  | resourceNotFound (logicalId : String)
  | duplicateLogicalId (logicalId : String) (names : List String)
  | config (fault : ConfigFault)
  | fileAccess (fault : FileFault)
  | json (error : Json.SyntaxError)
  | toml
  | unknownPolicy (name : String)
  | other (message : String)
deriving DecidableEq

/-- A count, what is counted, and one line for each. -/
def countedLines (what : String) (lines : List String) : String :=
  toString lines.length ++ " " ++ what ++ ":\n" ++ Text.bulletLines lines

/-- The members of a cycle in brackets. -/
def describeCycle (members : List String) : String :=
  "[" ++ Text.commaJoin members ++ "]"

/-- The words for a fault at a place in a template. -/
def parseMessage (place : Location) (message : String) : String :=
  "Failed to parse template at " ++ place.describe ++ ": " ++ message

namespace Error

/-- The words for an error. -/
def message : Error → String
  | .parse place fault file =>
    parseMessage place <| fault.message ++
      match file with
      | some name => " (in " ++ name ++ ")"
      | none => ""
  | .unsupportedIntrinsic tag context =>
    "Unsupported intrinsic function '" ++ tag ++ "' in " ++ context
  | .invalidCall function fault path =>
    "Invalid arguments for " ++ function.key ++ ": " ++ fault.reason ++
      match path with
      | some path => " at " ++ path
      | none => ""
  | .unresolvedReferences references =>
    countedLines "unresolved reference(s)" (references.map UnresolvedReference.describe)
  | .selfReference logicalId path =>
    "Resource '" ++ logicalId ++ "' references itself at " ++ path
  | .circularDependency cycles =>
    "Circular dependency detected: " ++ "; ".intercalate (cycles.map describeCycle)
  | .unknownProperties properties =>
    countedLines "unknown property name(s)" (properties.map UnknownProperty.describe)
  | .invalidOrder fault => "Invalid serialization order: " ++ fault.reason
  | .resourceNotFound logicalId => "Resource '" ++ logicalId ++ "' not found"
  | .duplicateLogicalId logicalId names =>
    "Logical id '" ++ logicalId ++ "' is declared by more than one registration: " ++
      Text.commaJoin names
  | .config fault => "Configuration error: " ++ fault.message
  | .fileAccess fault => "IO error: " ++ fault.message
  | .json error => "JSON error: " ++ error.message
  | .toml => "TOML parsing error"
  | .unknownPolicy name => unknownPolicyMessage name
  | .other message => message

/-- A fault at a path of a template. -/
def atPath (path : String) (fault : TemplateFault) : Error :=
  .parse (.atPath path) fault none

/-- All members of all cycles, sorted. -/
def cycleMembers : Error → List String
  | .circularDependency cycles => cycles.flatten.mergeSort
  | _ => []

end Error

end CloudTemplate
