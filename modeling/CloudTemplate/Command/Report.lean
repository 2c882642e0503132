import CloudTemplate.Graph.Outline
import CloudTemplate.Graph.Reach
import CloudTemplate.Import
import CloudTemplate.Json.Writer

/-!
# Reports

What commands print about templates.
-/

namespace CloudTemplate
namespace Report

/-- Texts, each on a line of its own. -/
def lines (texts : List String) : String :=
  String.join (texts.map (· ++ "\n"))

/-- An order of resources, one on each line or as JSON. -/
def order (isDeletion isJson : Bool) (ids : List String) : String :=
  if isJson then
    Json.pretty
      (.map
        [("direction", .string (if isDeletion then "deletion" else "creation")),
          ("order", .ofTexts ids)]) ++ "\n"
  else lines ids

/-- The cycles of a graph, behind an empty line. -/
def cycles (g : DependencyGraph) : String :=
  if g.cycles.isEmpty then ""
  else lines ("" :: g.cycles.map fun cycle => "cycle: " ++ describeCycle cycle.names)

/-- The outlines from some roots. -/
def outlines (g : DependencyGraph) (roots : List String) : String :=
  String.join (roots.map g.outlineText)

/-- The outlines from which the whole graph is reached. -/
def outline (g : DependencyGraph) : String :=
  if g.isEmpty then lines ["No resources found."] else outlines g g.roots

/-- A number in at least three places. -/
def number (n : Nat) : String :=
  let digits := toString n
  String.ofList (List.replicate (3 - digits.length) ' ') ++ digits

/-- A group with its number, and its forward references. -/
def group (position : Nat) (emitted : EmissionGroup) : List String :=
  let members := Text.commaJoin emitted.members
  if emitted.isCycle then
    (number position ++ ". cycle " ++ members) ::
      emitted.forward.entries.map fun entry =>
        "       " ++ entry.1 ++ " -> " ++ Text.commaJoin entry.2.names ++ " (forward)"
  else [number position ++ ". " ++ members]

/-- Groups with the numbers from a given one on. -/
def groups (position : Nat) : List EmissionGroup → List String
  | [] => []
  | emitted :: rest => group position emitted ++ groups (position + 1) rest

/-- The recovered dependencies of a graph, behind an empty line. -/
def recovered (g : DependencyGraph) : List String :=
  match g.recoveredEdges with
  | [] => []
  | edges =>
    "" :: "Recovered dependencies:" :: edges.map fun edge => "  " ++ edge.1 ++ " -> " ++ edge.2

/-- An import, as groups and recovered dependencies or as JSON. -/
def imported (isJson : Bool) (template : ImportedTemplate) : String :=
  if isJson then Json.pretty template.report ++ "\n"
  else lines (groups 1 template.groups ++ recovered template.graph)

/-- What recovery could not decide. -/
def warnings (template : ImportedTemplate) : String :=
  lines (template.warnings.map fun w => "warning: " ++ w.describe)

/-- That a template is valid. -/
def valid (file : String) (g : DependencyGraph) : String :=
  lines
    ["✓ " ++ file ++ " (" ++ toString g.nodeCount ++ " resource(s), " ++ toString g.edgeCount ++
      " dependency edge(s))"]

end Report
end CloudTemplate
