import CloudTemplate.Catalog.File
import CloudTemplate.Command.Basic
import CloudTemplate.Command.Report
import CloudTemplate.Configuration
import CloudTemplate.Merge
import CloudTemplate.Text.Blank

/-!
# Running commands

What commands do, given a way to read and write files.

Main definition: `Invocation.run`.
-/

namespace CloudTemplate

/-- What surrounds a command besides files. -/
structure Surroundings where
  /-- The configuration file that the environment names. -/
  configuration : Option String
  /-- The directory with the files of the user. -/
  home : FilePath
deriving DecidableEq

/-- What a command prints. -/
structure Printed where
  output : String
  /-- Warnings. -/
  remarks : String
deriving DecidableEq

namespace Printed

/-- Only output. -/
def ofOutput (output : String) : Printed := ⟨output, ""⟩

end Printed

/-- Actions that read and write files and may fail. -/
abbrev Attempt (m : Type → Type) := ExceptT Failure m

namespace Command

variable {m : Type → Type} [Monad m]

/-- Read a file. -/
def readFile (files : FileAccess m) (path : FilePath) : Attempt m (Except FileFault Bytes) :=
  ExceptT.lift (files.read path)

/-- Go on with what a computation gave. -/
def attempt {α : Type} (result : Except Failure α) : Attempt m α :=
  ExceptT.mk (pure result)

/-- Go on with what a computation gave, if it did not fail. -/
def check {α : Type} (result : Except Error α) : Attempt m α :=
  attempt (result.mapError Failure.ofError)

/-- The template of a file, given what reading the file gave. -/
def templateOf (path : FilePath) (content : Except FileFault Bytes) : Except Error Template := do
  Template.ofFile path none (← content.mapError .fileAccess)

/-- Load a template. -/
def loadTemplate (files : FileAccess m) (path : FilePath) : Attempt m Template := do
  let content ← readFile files path
  attempt <| (templateOf path content).mapError fun e =>
    (Failure.ofError e).within ("Failed to load template " ++ path.shown)

/-- Load a template and derive its graph. -/
def loadGraph (files : FileAccess m) (path : FilePath) :
    Attempt m (Template × DependencyGraph) := do
  let t ← loadTemplate files path
  return (t, ← check (Blueprint.ofTemplate t).graph)

/-- Print an order. -/
def runOrder (files : FileAccess m) (path : FilePath) (isDeletion isJson : Bool) :
    Attempt m Printed := do
  let (_, g) ← loadGraph files path
  let ids ← check (if isDeletion then g.deletionOrder else g.creationOrder)
  return .ofOutput (Report.order isDeletion isJson ids)

/-- Print outlines. -/
def runGraph (files : FileAccess m) (path : FilePath) (root : Option String) :
    Attempt m Printed := do
  let (_, g) ← loadGraph files path
  match root with
  | none => return .ofOutput (Report.outline g ++ Report.cycles g)
  | some id =>
    if g.contains id then return .ofOutput (g.outlineText id ++ Report.cycles g)
    else
      attempt <| .error
        ⟨.message ("Resource '" ++ id ++ "' not found in " ++ path.shown), []⟩

/-- The default place of the configuration file. -/
def defaultConfiguration (surroundings : Surroundings) : FilePath :=
  surroundings.home.append "/.stackgraph/config.toml"

/-- Load a configuration file. -/
def loadConfigurationFile (files : FileAccess m) (path : FilePath) : Attempt m Configuration := do
  let content ← readFile files path
  attempt (Configuration.ofFile path content)

/-- Load the configuration that the command line names, or else the environment, or else the one at
the default place, if there is one. -/
def loadConfiguration (files : FileAccess m) (surroundings : Surroundings)
    (named : Option FilePath) : Attempt m Configuration := do
  let ofSurroundings := surroundings.configuration.filter fun text => !text.isEmpty
  match named.or (ofSurroundings.map FilePath.ofText) with
  | some path => loadConfigurationFile files path
  | none =>
    let path := defaultConfiguration surroundings
    if ← ExceptT.lift (files.isThere path) then loadConfigurationFile files path
    else return .standard

/-- Print an import. -/
def runImport (files : FileAccess m) (surroundings : Surroundings) (named : Option FilePath)
    (path : FilePath) (isJson skipsRecovery : Bool) : Attempt m Printed := do
  let configuration ← loadConfiguration files surroundings named
  let settings :=
    if skipsRecovery then { configuration.recovery with enabled := false }
    else configuration.recovery
  let content ← readFile files path
  let bytes ← attempt <| content.mapError fun fault =>
    ⟨.file fault, ["Failed to read template " ++ path.shown]⟩
  let format := (DocumentFormat.ofPath? path).getD (.ofContent bytes)
  let template ← check (ImportedTemplate.ofBytes format bytes settings)
  return ⟨Report.imported isJson template, if isJson then "" else Report.warnings template⟩

/-- Check a template. -/
def runValidate (files : FileAccess m) (path : FilePath) (catalog : Option FilePath) :
    Attempt m Printed := do
  let (t, g) ← loadGraph files path
  check g.ensureAcyclic
  match catalog with
  | none => return .ofOutput (Report.valid path.shown g)
  | some place =>
    let content ← readFile files place
    let catalog ← attempt <| (Catalog.ofFile place content).mapError fun e =>
      (Failure.ofError e).within ("Failed to load catalog " ++ place.shown)
    check (catalog.validate t.resources)
    return .ofOutput (Report.valid path.shown g)

/-- Load template files as units. -/
def loadUnits (files : FileAccess m) : List FilePath → Attempt m (List DeclarationUnit)
  | [] => return []
  | path :: rest => do
    let content ← readFile files path
    let t ← attempt <| (templateOf path content).mapError fun e =>
      (Failure.ofError e).within "Failed to load templates"
    return DeclarationUnit.ofTemplate path t :: (← loadUnits files rest)

/-- Write a merged document, or print it without the end of its last line. -/
def runBuild (files : FileAccess m) (paths : List FilePath) (output : Option FilePath)
    (isYaml : Bool) : Attempt m Printed := do
  let units ← loadUnits files paths
  let t ← attempt (Template.merge units)
  let document ← check t.toDocument
  let text := document.text (if isYaml then .yaml else .json)
  match output with
  | none => return .ofOutput (Text.trimEnd text ++ "\n")
  | some path =>
    let written ← ExceptT.lift (files.write path text.toUTF8.toList)
    attempt <| written.mapError fun fault => ⟨.file fault, ["Failed to write " ++ path.shown]⟩
    return .ofOutput ""

end Command

/-- Run a command. -/
def Invocation.run {m : Type → Type} [Monad m] (files : FileAccess m)
    (surroundings : Surroundings) (i : Invocation) : m (Except Failure Printed) :=
  match i.command with
  | .order file isDeletion isJson => (Command.runOrder files file isDeletion isJson).run
  | .graph file root => (Command.runGraph files file root).run
  | .importTemplate file isJson skipsRecovery =>
    (Command.runImport files surroundings i.configuration file isJson skipsRecovery).run
  | .validate file catalog => (Command.runValidate files file catalog).run
  | .build paths output isYaml => (Command.runBuild files paths output isYaml).run

end CloudTemplate
