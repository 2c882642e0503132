import CloudTemplate.Graph.Emission
import CloudTemplate.Template.Source
import CloudTemplate.Template.Writing

/-!
# Imports

An imported template is a template with its dependency graph, recovered dependencies included, and
its resources in an order in which they can be emitted. Cycles are no errors here.
-/

namespace CloudTemplate

/-- A template with its graph and the groups in the order of their emission. -/
structure ImportedTemplate where
  template : Template
  graph : DependencyGraph
  groups : List EmissionGroup

namespace ImportedTemplate

/-- Read a template and find its order. -/
def ofBytes (format : DocumentFormat) (bytes : List UInt8) (settings : RecoverySettings) :
    Except Error ImportedTemplate := do
  let template ← Template.ofBytes format bytes
  let graph ← ((Blueprint.ofTemplate template).withRecovery settings).graph
  return ⟨template, graph, graph.emissionOrder⟩

/-- What recovery could not decide. -/
def warnings (imported : ImportedTemplate) : List AmbiguousMatch :=
  imported.graph.warnings

/-- The resources in the order of their emission. -/
def sequence (imported : ImportedTemplate) : List String :=
  imported.groups.flatMap (·.members)

/-- The groups with more than one member. -/
def cycles (imported : ImportedTemplate) : List EmissionGroup :=
  imported.groups.filter EmissionGroup.isCycle

end ImportedTemplate

/-- A list of texts as a document tree. -/
def Tree.ofTexts (texts : List String) : Tree :=
  .list (texts.map .string)

/-- The document tree of a group; forward references are left out where there are none. -/
def EmissionGroup.toTree (group : EmissionGroup) : Tree :=
  .map <| presentEntries
    [("members", some (.ofTexts group.members)),
      ("forward_references", group.forward.toTree? fun targets => .ofTexts targets.names)]

/-- The report on an import as a document tree. -/
def ImportedTemplate.report (imported : ImportedTemplate) : Tree :=
  .map
    [("resources", .number (.integer imported.graph.nodeCount)),
      ("groups", .list (imported.groups.map EmissionGroup.toTree)),
      ("recovered", .list (imported.graph.recoveredEdges.map fun edge =>
        .map [("from", .string edge.1), ("to", .string edge.2)])),
      ("warnings", .ofTexts (imported.warnings.map AmbiguousMatch.describe))]

end CloudTemplate
