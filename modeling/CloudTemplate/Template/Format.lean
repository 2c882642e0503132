import CloudTemplate.Text.Path

/-!
# Document formats

The two text formats of templates, told apart by the name of a file or by its content.
-/

namespace CloudTemplate

/-- A text format of templates. -/
inductive DocumentFormat where
  | json
  | yaml
deriving DecidableEq, Repr

namespace DocumentFormat

/-- The format that the extension of a path names, in letters of any case. -/
def ofPath? (path : FilePath) : Option DocumentFormat :=
  match path.extension?.map fun ext => ext.map Char.toLower with
  | some "json" => some .json
  | some "yaml" => some .yaml
  | some "yml" => some .yaml
  | _ => none

/-- Whether a byte is an ASCII blank: space, tab, line feed, form feed or carriage return. -/
def isAsciiBlank (b : UInt8) : Bool :=
  b = 0x20 || b = 0x09 || b = 0x0A || b = 0x0C || b = 0x0D

/-- The format of a content: JSON documents start with a brace. -/
def ofContent (bytes : List UInt8) : DocumentFormat :=
  match bytes.find? fun b => !isAsciiBlank b with
  | some 0x7B => .json
  | _ => .yaml

/-- The name of a format. -/
def name : DocumentFormat → String
  | .json => "json"
  | .yaml => "yaml"

end DocumentFormat

end CloudTemplate
