import CloudTemplate.Text.Path

/-!
# Commands

What a command line can ask for.
-/

namespace CloudTemplate

/-- What is to be done, with the files that are named by their paths. -/
inductive Command where
  /-- Print the resources of a template in creation or deletion order. -/
  | order (file : FilePath) (isDeletion isJson : Bool)
  /-- Print the dependencies of one resource, or of all, as outlines. -/
  | graph (file : FilePath) (root : Option String)
  /-- Print the emission order of a template with what was recovered. -/
  | importTemplate (file : FilePath) (isJson skipsRecovery : Bool)
  /-- Check a template, and its property names if there is a catalog. -/
  | validate (file : FilePath) (catalog : Option FilePath)
  /-- Merge templates into one document. -/
  | build (files : List FilePath) (output : Option FilePath) (isYaml : Bool)
deriving DecidableEq, Repr

/-- A command and the configuration file that the command line names. -/
structure Invocation where
  command : Command
  configuration : Option FilePath
deriving DecidableEq, Repr

end CloudTemplate
