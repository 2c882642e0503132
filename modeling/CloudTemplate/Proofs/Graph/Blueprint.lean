import CloudTemplate.Graph.Order
import CloudTemplate.Proofs.Graph.CreationOrder
import CloudTemplate.Proofs.Outcome

/-!
# Graphs of blueprints

The graph that is derived from a blueprint has the resources of the blueprint
as its nodes (`Blueprint.ids_of_graph`), so an order in which it can be created
lists all resources, each once.

The edges of the graph and the faults for which it is refused come from what the
references of the resources name, other than parameters (`Blueprint.links`).  So
a change of resources that keeps the links changes the parameters at most
(`Blueprint.graph_mapResources`).
-/

namespace CloudTemplate

open Outcome

namespace DependencyGraph

theorem ids_ofRows
    (rows : NameTable EdgeRow) (parameters : NameTable NameSet)
    (warnings : List AmbiguousMatch) :
    (ofRows rows parameters warnings).ids = rows.names :=
  NameTable.names_mapEntries ..

theorem isCreationOrder_of_creationOrder
    {g : DependencyGraph} {order : List String} (h : g.creationOrder = .ok order) :
    g.Acyclic ∧ g.IsCreationOrder order := by
  by_cases hacyclic : g.Acyclic
  · rw [creationOrder_of_acyclic hacyclic] at h
    cases h
    exact ⟨hacyclic, (releaseOrder_least hacyclic).1⟩
  · rw [creationOrder_of_not_acyclic hacyclic] at h
    cases h

end DependencyGraph

namespace Blueprint

variable {b : Blueprint} {g : DependencyGraph}

theorem graph_eq_ok_iff :
    b.graph = .ok g ↔ b.unresolved = [] ∧ b.selfReferences = [] ∧ g = b.soundGraph := by
  unfold graph
  cases b.unresolved with
  | nil =>
      cases b.selfReferences with
      | nil => simp [eq_comm]
      | cons head rest => simp
  | cons head rest => simp

/-- A graph is refused for all that is missing, or for one resource that refers to
itself. -/
theorem graph_cases (b : Blueprint) :
    b.graph = .error (.unresolvedReferences b.unresolved) ∨
      (∃ id path, b.graph = .error (.selfReference id path)) ∨ b.graph = .ok b.soundGraph := by
  unfold graph
  cases b.unresolved with
  | nil =>
      cases b.selfReferences with
      | nil => exact .inr (.inr rfl)
      | cons first rest => exact .inr (.inl ⟨first.1, first.2, rfl⟩)
  | cons first rest => exact .inl rfl

theorem ids_of_graph (h : b.graph = .ok g) : g.ids = b.resources.names := by
  obtain ⟨-, -, rfl⟩ := graph_eq_ok_iff.1 h
  unfold soundGraph edgeRows
  rw [DependencyGraph.ids_ofRows, NameTable.names_mapEntries]

/-- The order of creation lists every resource once. -/
theorem perm_of_creationOrder
    {order : List String} (hgraph : b.graph = .ok g) (horder : g.creationOrder = .ok order) :
    order.Perm b.resources.names := by
  rw [← ids_of_graph hgraph]
  exact (DependencyGraph.isCreationOrder_of_creationOrder horder).2.perm

section Links

/-- What a reference to anything but a parameter has to do with the edges of a
graph and with its faults. -/
structure Link where
  kind : EdgeKind
  path : String
  target : String
  resolution : Resolution

/-- The link that a reference makes, unless it names a parameter. -/
def link? (found : ResolvedSite) : Option Link :=
  if found.resolution = .parameter then none
  else some ⟨found.kind, found.site.path, found.site.target, found.resolution⟩

/-- The links of a resource, in the order of its references. -/
def links (b : Blueprint) (r : Resource) : List Link :=
  (b.resolvedSites r).filterMap link?

/-- What a loop over the references of a resource collects of anything but
parameters, it collects from the links. -/
theorem filterMap_links
    {β : Type} (b : Blueprint) (r : Resource) (f : Link → Option β)
    (hparameter : ∀ kind path target, f ⟨kind, path, target, .parameter⟩ = none) :
    (b.links r).filterMap f = (b.resolvedSites r).filterMap fun found =>
      f ⟨found.kind, found.site.path, found.site.target, found.resolution⟩ := by
  unfold links
  rw [List.filterMap_filterMap]
  refine List.filterMap_congr fun found _ => ?_
  unfold link?
  split
  · next hresolution => rw [hresolution, hparameter, Option.bind_none]
  · rfl

theorem unresolvedOfResource_eq_links (b : Blueprint) (id : String) (r : Resource) :
    b.unresolvedOfResource id r = (b.links r).filterMap fun link =>
      match link.resolution with
      | .missing expected => some (b.scope.report id link.path link.target expected)
      | _ => none := by
  rw [filterMap_links]
  · rfl
  · exact fun _ _ _ => rfl

theorem targetsOf_eq_links (b : Blueprint) (r : Resource) (kind : EdgeKind) :
    b.targetsOf r kind = (b.links r).filterMap fun link =>
      if link.resolution = .resource ∧ link.kind = kind then some link.target else none := by
  rw [filterMap_links]
  · rfl
  · exact fun _ _ _ => if_neg (by simp)

theorem selfReferences_eq_links (b : Blueprint) :
    b.selfReferences = b.resources.entries.flatMap fun entry =>
      (b.links entry.2).filterMap fun link =>
        if link.resolution = .resource ∧ link.target = entry.1 then
          some (entry.1, link.path)
        else none := by
  refine List.flatMap_congr fun entry _ => ?_
  rw [filterMap_links]
  exact fun _ _ _ => if_neg (by simp)

end Links

section Changes

/-- Change the resources, each with regard to its id. -/
def mapResources (b : Blueprint) (f : String → Resource → Resource) : Blueprint :=
  { b with resources := b.resources.mapEntries f }

/-- The parameters that the resources name. -/
def parameterTable (b : Blueprint) : NameTable NameSet :=
  (b.resources.map b.parametersOf).filter fun entry => !entry.2.isEmpty

theorem soundGraph_eq (b : Blueprint) :
    b.soundGraph = DependencyGraph.ofRows (b.edgeRows b.recovered) b.parameterTable
      (AmbiguousMatch.sorted (b.recovered.values.flatMap (·.warnings))) := rfl

variable {f : String → Resource → Resource}

theorem flatMap_mapResources
    {β : Type} (collect : String → Resource → List β)
    (h : ∀ id r, b.resources.get? id = some r → collect id (f id r) = collect id r) :
    ((b.mapResources f).resources.entries.flatMap fun entry => collect entry.1 entry.2) =
      b.resources.entries.flatMap fun entry => collect entry.1 entry.2 := by
  refine (List.flatMap_map ..).trans (List.flatMap_congr fun entry hentry => ?_)
  exact h entry.1 entry.2 (NameTable.get?_eq_some_iff.2 hentry)

variable (hlinks : ∀ id r, b.resources.get? id = some r → b.links (f id r) = b.links r)

include hlinks

theorem unresolved_mapResources : (b.mapResources f).unresolved = b.unresolved := by
  have hresources := flatMap_mapResources (b := b) (f := f) b.unresolvedOfResource
    fun id r hr => by
      rw [unresolvedOfResource_eq_links, unresolvedOfResource_eq_links, hlinks id r hr]
  exact congrArg (fun reports => UnresolvedReference.sorted ((reports ++ _) ++ _)) hresources

theorem selfReferences_mapResources : (b.mapResources f).selfReferences = b.selfReferences := by
  rw [selfReferences_eq_links, selfReferences_eq_links]
  refine flatMap_mapResources (fun id r => (b.links r).filterMap fun link =>
    if link.resolution = .resource ∧ link.target = id then some (id, link.path) else none)
    fun id r hr => ?_
  rw [hlinks id r hr]

theorem edgeRows_mapResources (found : NameTable Recovered) :
    (b.mapResources f).edgeRows found = b.edgeRows found := by
  refine NameTable.ext_get? fun id => ?_
  show ((b.resources.mapEntries f).mapEntries (b.edgeRow found)).get? id =
    (b.resources.mapEntries _).get? id
  rw [NameTable.get?_mapEntries, NameTable.get?_mapEntries, NameTable.get?_mapEntries]
  cases hr : b.resources.get? id with
  | none => rfl
  | some r =>
      unfold edgeRow
      simp only [Option.map_some, targetsOf_eq_links, hlinks id r hr]

/-- A change that keeps the links of all resources may have an effect on the
parameters that they name, and on nothing else. -/
theorem graph_mapResources
    (hrecovery : b.recovery = none) :
    (b.mapResources f).graph =
      b.graph.map fun g => { g with parameters := (b.mapResources f).parameterTable } := by
  have hrecovered : (b.mapResources f).recovered = b.recovered := by
    unfold recovered
    rw [show (b.mapResources f).recovery = none from hrecovery, hrecovery]
    exact NameTable.ext_get? fun id => by
      simp [mapResources, Function.comp_def]
  unfold graph
  rw [unresolved_mapResources hlinks, selfReferences_mapResources hlinks]
  cases b.unresolved with
  | cons head rest => rfl
  | nil =>
      cases b.selfReferences with
      | cons head rest => rfl
      | nil =>
          refine congrArg Except.ok ?_
          rw [soundGraph_eq, soundGraph_eq, hrecovered, edgeRows_mapResources hlinks]
          rfl

/-- A change that keeps the parameters, too, has no effect on the graph. -/
theorem graph_mapResources_eq
    (hrecovery : b.recovery = none)
    (hparameters : ∀ id r, b.resources.get? id = some r →
      b.parametersOf (f id r) = b.parametersOf r) :
    (b.mapResources f).graph = b.graph := by
  have htable : (b.mapResources f).parameterTable = b.parameterTable := by
    refine congrArg (NameTable.filter _) (NameTable.ext_get? fun id => ?_)
    show ((b.resources.mapEntries f).map b.parametersOf).get? id = _
    rw [NameTable.get?_map, NameTable.get?_map, NameTable.get?_mapEntries]
    cases hr : b.resources.get? id with
    | none => rfl
    | some r => exact congrArg some (hparameters id r hr)
  rw [graph_mapResources hlinks hrecovery, htable]
  cases hgraph : b.graph with
  | error reason => rfl
  | ok g =>
      obtain ⟨-, -, rfl⟩ := graph_eq_ok_iff.1 hgraph
      rfl

end Changes

end Blueprint

/-- The references of a resource are in its properties, its condition and its
explicit dependencies; the map keeps these. -/
structure Resource.KeepsLinks (f : Resource → Resource) : Prop where
  properties : ∀ r, (f r).properties = r.properties
  condition : ∀ r, (f r).condition = r.condition
  dependsOn : ∀ r, (f r).dependsOn = r.dependsOn

namespace Blueprint

theorem resolvedSites_of_keepsLinks
    {f : Resource → Resource} (h : Resource.KeepsLinks f) (b : Blueprint) (r : Resource) :
    b.resolvedSites (f r) = b.resolvedSites r := by
  unfold resolvedSites Resource.propertySites Resource.dependsOnSites
  rw [h.properties, h.condition, h.dependsOn]

/-- A change to the other attributes of resources leaves the graph as it is. -/
theorem graph_ofResources_map
    {f : Resource → Resource} (resources : ResourceSet) (h : Resource.KeepsLinks f) :
    (ofResources (resources.map f)).graph = (ofResources resources).graph := by
  have hnames : (resources.map f).map (fun _ => ()) = resources.map fun _ => () :=
    NameTable.map_map ..
  have hmap : ofResources (resources.map f) =
      (ofResources resources).mapResources fun _ => f := by
    unfold ofResources
    rw [hnames]
    rfl
  rw [hmap]
  refine graph_mapResources_eq (fun id r _ => ?_) rfl fun id r _ => ?_
  · exact congrArg (List.filterMap link?) (resolvedSites_of_keepsLinks h _ r)
  · unfold parametersOf
    rw [resolvedSites_of_keepsLinks h]

end Blueprint
end CloudTemplate
