import CloudTemplate.Catalog.File
import CloudTemplate.Error.Explanation
import CloudTemplate.Recovery.Settings
import CloudTemplate.Template.Writing

/-!
# Configuration

A configuration is a TOML file with settings of dependency recovery. It knows no other section;
within the section, unknown keys are ignored.
-/

namespace CloudTemplate

namespace RecoverySettings

/-- The flag, or the standard if there is none. -/
def enabledOf? : Option Toml.Item → Option Bool
  | none => some standard.enabled
  | some item => item.boolean?

/-- The name properties, or none if there are none. -/
def namePropertiesOf? : Option Toml.Item → Option (NameTable String)
  | none => some .empty
  | some item => do
    let entries ← item.entries?
    return .ofList (← entries.mapM fun entry => do return (entry.1, ← entry.2.string?))

/-- The ARN templates, or none if there are none. -/
def arnTemplatesOf? : Option Toml.Item → Option (NameTable (List String))
  | none => some .empty
  | some item => do
    let entries ← item.entries?
    return .ofList (← entries.mapM fun entry => do return (entry.1, ← entry.2.texts?))

/-- The names of the settings. -/
def settingNames : List String := ["enabled", "name_properties", "arn_templates"]

/-- The settings of a table with their keys, or of a list with their values in order. Under other
keys, numbers have to be in range. -/
def ofToml? (item : Toml.Item) : Option RecoverySettings :=
  match item.entries?, item.items? with
  | some entries, _ => do
    guard (entries.all fun entry => settingNames.contains entry.1 || entry.2.hasRange)
    return ⟨← enabledOf? (Entries.lookup "enabled" entries),
      ← namePropertiesOf? (Entries.lookup "name_properties" entries),
      ← arnTemplatesOf? (Entries.lookup "arn_templates" entries)⟩
  | none, some items => do
    return ⟨← enabledOf? items[0]?, ← namePropertiesOf? items[1]?, ← arnTemplatesOf? items[2]?⟩
  | none, none => none

/-- The document tree of settings; empty tables are left out. -/
def toTree (s : RecoverySettings) : Tree :=
  .map <| presentEntries
    [("enabled", some (.bool s.enabled)),
      ("name_properties", s.nameProperties.toTree? .string),
      ("arn_templates", s.arnTemplates.toTree? fun templates => .list (templates.map .string))]

end RecoverySettings

/-- What a configuration file says. -/
structure Configuration where
  recovery : RecoverySettings
deriving DecidableEq

namespace Configuration

/-- The configuration without a file. -/
def standard : Configuration := ⟨.standard⟩

/-- The configuration that a TOML text holds. -/
def ofToml? (text : String) : Option Configuration := do
  let entries ← Toml.Item.ofText? text
  if entries.all fun entry => entry.1 = "recovery" then
    match Entries.lookup "recovery" entries with
    | some item => return ⟨← RecoverySettings.ofToml? item⟩
    | none => some standard
  else none

/-- The configuration of a file, given what reading the file gave. -/
def ofFile (path : FilePath) (content : Except FileFault Bytes) :
    Except Failure Configuration := do
  let text ← (content.bind textOf).mapError fun fault =>
    ⟨.file fault, ["Failed to read config from " ++ path.shown]⟩
  match ofToml? text with
  | none => .error ⟨.error .toml, ["Failed to parse config from " ++ path.shown]⟩
  | some configuration =>
    match configuration.recovery.fault? with
    | some fault => .error ⟨.error (.config fault), ["Invalid configuration in " ++ path.shown]⟩
    | none => .ok configuration

/-- The document tree of a configuration. -/
def toTree (c : Configuration) : Tree :=
  .single "recovery" c.recovery.toTree

end Configuration

end CloudTemplate
