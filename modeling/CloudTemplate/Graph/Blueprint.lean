import CloudTemplate.Error
import CloudTemplate.Graph.Basic

/-!
# Blueprints of dependency graphs

A blueprint is what a dependency graph is derived from: resources, the names that their references
may use, and whether dependencies are recovered from texts. The blueprint of a template also holds
its conditions and outputs, whose references have to resolve but make no edge.

Main definitions: `Blueprint.unresolved` and `Blueprint.selfReferences` are the two reasons for
refusing a blueprint, and `Blueprint.graph` is the graph where there is neither.
-/

namespace CloudTemplate

/-- What a dependency graph is derived from. -/
structure Blueprint where
  resources : ResourceSet
  scope : Scope
  conditions : NameTable Value
  outputs : NameTable Output
  /-- How dependencies are recovered from texts, if they are. -/
  recovery : Option RecoverySettings

/-- A reference of a resource, the edge that it makes if it names a resource, and what it names. -/
structure ResolvedSite where
  site : ReferenceSite
  kind : EdgeKind
  resolution : Resolution

/-- The reference that a `Condition` attribute makes. -/
def conditionSites (condition : Option String) : List ReferenceSite :=
  condition.toList.map fun name => ⟨"Condition", name, .condition⟩

namespace Resource

/-- The references in the properties, in the order of the property names. -/
def propertySites (r : Resource) : List ReferenceSite :=
  r.properties.entries.flatMap fun entry => entry.2.sites ("Properties." ++ entry.1)

/-- The references that explicit dependencies make. -/
def dependsOnSites (r : Resource) : List ReferenceSite :=
  r.dependsOn.mapIdx fun index target => ⟨itemPath "DependsOn" index, target, .ref⟩

end Resource

/-- The references of an output. -/
def Output.sites (output : Output) : List ReferenceSite :=
  output.value.sites "Value" ++
    output.exportName.toList.flatMap (Value.sites "Export.Name") ++
    conditionSites output.condition

namespace EdgeRow

/-- Add an edge, unless there is one to the same target already. -/
def link (row : EdgeRow) (target : String) (kind : EdgeKind) : EdgeRow :=
  if row.contains target then row else row.insert target kind

/-- Add an edge to each of some targets. -/
def linkAll (row : EdgeRow) (kind : EdgeKind) (targets : List String) : EdgeRow :=
  targets.foldl (fun row target => EdgeRow.link row target kind) row

end EdgeRow

namespace Blueprint

/-- The blueprint of resources that refer to each other only. -/
def ofResources (resources : ResourceSet) : Blueprint where
  resources := resources
  scope := ⟨resources.map fun _ => (), .empty, .empty⟩
  conditions := .empty
  outputs := .empty
  recovery := none

/-- Let references name parameters and conditions, too. -/
def withNames (b : Blueprint) (parameters conditions : NameSet) : Blueprint :=
  { b with
    scope :=
      ⟨b.scope.resources, b.scope.parameters.union parameters,
        b.scope.conditions.union conditions⟩ }

/-- The blueprint of a whole template. -/
def ofTemplate (t : Template) : Blueprint :=
  { (ofResources t.resources).withNames (t.parameters.map fun _ => ())
      (t.conditions.map fun _ => ()) with
    conditions := t.conditions
    outputs := t.outputs }

/-- Recover dependencies from texts, if the settings enable it. -/
def withRecovery (b : Blueprint) (settings : RecoverySettings) : Blueprint :=
  { b with recovery := if settings.enabled then some settings else none }

/-- What an explicit dependency names: it has to be a resource. -/
def resolveDependsOn (b : Blueprint) (target : String) : Resolution :=
  if b.scope.isResource target then .resource else .missing .resource

/-- All references of a resource: those in properties, its condition, its explicit dependencies. -/
def resolvedSites (b : Blueprint) (r : Resource) : List ResolvedSite :=
  ((r.propertySites ++ conditionSites r.condition).map fun site =>
      ⟨site, .reference, b.scope.resolve site.target site.form⟩) ++
    r.dependsOnSites.map fun site => ⟨site, .dependsOn, b.resolveDependsOn site.target⟩

/-- The reports on those of some references that name nothing in scope. -/
def unresolvedOf (b : Blueprint) (source : String) (sites : List ReferenceSite) :
    List UnresolvedReference :=
  sites.filterMap fun site =>
    match b.scope.resolve site.target site.form with
    | .missing expected => some (b.scope.report source site.path site.target expected)
    | _ => none

/-- The reports on the references of a resource that name nothing in scope. -/
def unresolvedOfResource (b : Blueprint) (id : String) (r : Resource) :
    List UnresolvedReference :=
  (b.resolvedSites r).filterMap fun found =>
    match found.resolution with
    | .missing expected => some (b.scope.report id found.site.path found.site.target expected)
    | _ => none

/-- The reports on all references that name nothing in scope, in the order of reports. -/
def unresolved (b : Blueprint) : List UnresolvedReference :=
  UnresolvedReference.sorted <|
    (b.resources.entries.flatMap fun entry => b.unresolvedOfResource entry.1 entry.2) ++
    (b.conditions.entries.flatMap fun entry =>
      b.unresolvedOf entry.1 (entry.2.sites ("Conditions." ++ entry.1))) ++
    b.outputs.entries.flatMap fun entry => b.unresolvedOf entry.1 entry.2.sites

/-- The references of resources to themselves with their paths, in the order of the ids. -/
def selfReferences (b : Blueprint) : List (String × String) :=
  b.resources.entries.flatMap fun entry =>
    (b.resolvedSites entry.2).filterMap fun found =>
      if found.resolution = .resource ∧ found.site.target = entry.1 then
        some (entry.1, found.site.path)
      else none

/-- The resources that a resource names, by the kind of the edge. -/
def targetsOf (b : Blueprint) (r : Resource) (kind : EdgeKind) : List String :=
  (b.resolvedSites r).filterMap fun found =>
    if found.resolution = .resource ∧ found.kind = kind then some found.site.target else none

/-- The parameters that a resource names. -/
def parametersOf (b : Blueprint) (r : Resource) : NameSet :=
  .ofList <| (b.resolvedSites r).filterMap fun found =>
    if found.resolution = .parameter then some found.site.target else none

/-- What is recovered from the texts of each resource. -/
def recovered (b : Blueprint) : NameTable Recovered :=
  match b.recovery with
  | none => b.resources.map fun _ => ⟨[], []⟩
  | some settings =>
    let index := PatternIndex.ofResources settings b.resources
    b.resources.mapEntries (index.recover b.scope)

/-- The edges of a resource. A reference in a property counts for more than an explicit
dependency, and that for more than a recovered one. -/
def edgeRow (b : Blueprint) (found : NameTable Recovered) (id : String) (r : Resource) : EdgeRow :=
  let stated :=
    EdgeRow.linkAll (EdgeRow.linkAll .empty .reference (b.targetsOf r .reference)) .dependsOn
      (b.targetsOf r .dependsOn)
  match found.get? id with
  | none => stated
  | some more => EdgeRow.linkAll stated .recovered (more.dependencies.map (·.target))

/-- The edges of all resources. -/
def edgeRows (b : Blueprint) (found : NameTable Recovered) : NameTable EdgeRow :=
  b.resources.mapEntries (b.edgeRow found)

/-- The graph of a blueprint whose references all name something in scope, none of them its own
resource. -/
def soundGraph (b : Blueprint) : DependencyGraph :=
  let found := b.recovered
  let parameters := (b.resources.map b.parametersOf).filter fun entry => !entry.2.isEmpty
  DependencyGraph.ofRows (b.edgeRows found) parameters
    (AmbiguousMatch.sorted (found.values.flatMap (·.warnings)))

/-- Derive the graph. References that name nothing are reported all together; otherwise the first
reference of a resource to itself is reported. -/
def graph (b : Blueprint) : Except Error DependencyGraph :=
  match b.unresolved with
  | [] =>
    match b.selfReferences with
    | (id, path) :: _ => .error (.selfReference id path)
    | [] => .ok b.soundGraph
  | missing => .error (.unresolvedReferences missing)

end Blueprint

namespace DependencyGraph

/-- The path in reports about a bare adjacency map. -/
def mapPath : String := "<graph>"

/-- The edges of an adjacency map, ascending. -/
def mapEdges (adjacency : Adjacency) : List (String × String) :=
  adjacency.entries.flatMap fun row => row.2.names.map fun target => (row.1, target)

/-- The graph of a bare adjacency map. No node may depend on itself, and every dependency has to
be a node. -/
def ofMap (adjacency : Adjacency) : Except Error DependencyGraph :=
  let scope : Scope := ⟨adjacency.map fun _ => (), .empty, .empty⟩
  match (mapEdges adjacency).find? fun edge => edge.1 == edge.2 with
  | some (id, _) => .error (.selfReference id mapPath)
  | none =>
    match (mapEdges adjacency).filter fun edge => !scope.isResource edge.2 with
    | [] => .ok (ofRows (adjacency.map fun row => row.map fun _ => .reference) .empty [])
    | missing =>
      .error <| .unresolvedReferences <| missing.map fun edge =>
        scope.report edge.1 mapPath edge.2 .resource

end DependencyGraph

end CloudTemplate
