import CloudTemplate.Catalog.Json
import CloudTemplate.FileStore
import CloudTemplate.Template.Format
import CloudTemplate.Toml.Reader

/-!
# Catalog files

A catalog file is TOML if its name ends in `.toml`, in small or capital letters, and JSON otherwise.
-/

namespace CloudTemplate

/-- The texts of a list of strings. -/
def Toml.Item.texts? (item : Toml.Item) : Option (List String) := do
  (← item.items?).mapM Toml.Item.string?

namespace Catalog

/-- The catalog that a TOML text holds. -/
def ofToml (text : String) : Except Error Catalog :=
  let types := do
    (← Toml.Item.ofText? text).mapM fun entry => do
      return (entry.1, NameSet.ofList (← entry.2.texts?))
  match types with
  | some types => .ok (.ofList types)
  | none => .error .toml

/-- Whether a file name announces TOML. -/
def isTomlName (path : FilePath) : Bool :=
  match path.extension? with
  | some ending => ending.map Char.toLower = "toml"
  | none => false

/-- The catalog of a file, given what reading the file gave. -/
def ofFile (path : FilePath) (content : Except FileFault Bytes) : Except Error Catalog := do
  let bytes ← content.mapError .fileAccess
  let text ← (textOf bytes).mapError .fileAccess
  if isTomlName path then ofToml text else ofJson bytes

end Catalog

end CloudTemplate
