import CloudTemplate.Proofs.Graph.Blueprint
import CloudTemplate.Proofs.Graph.Faults

/-!
# The edges of a derived graph

A resource mentions another one by a reference, an attribute or a placeholder
in its properties (`Resource.Mentions`), and it may depend on it explicitly.
An edge is made for either; a mention gives it its kind, wherever in the
resource it stands, as the first edge to a target stays
(`EdgeRow.get?_linkAll`).

Main statement: the graph of resources without recovery has these edges and no
others (`Blueprint.edges_of_mentions_and_dependsOn`).
-/

namespace CloudTemplate

/-- A property has a reference to the target as a resource or a parameter: a
`Ref`, an attribute, or a placeholder that its call does not bind. -/
def Resource.Mentions (r : Resource) (target : String) : Prop :=
  ∃ property value place site, r.properties.get? property = some value ∧
    value.SiteAt ("Properties." ++ property) place site ∧
    site.form ≠ .condition ∧ site.target = target

theorem Resource.mentions_iff
    {r : Resource} {target : String} :
    r.Mentions target ↔
      ∃ site ∈ r.propertySites, site.form ≠ .condition ∧ site.target = target := by
  constructor
  · rintro ⟨property, value, place, site, hvalue, hsite, hform, htarget⟩
    exact ⟨site, r.enumerates_propertySites.mem_iff.2 ⟨(property, place), value, hvalue, hsite⟩,
      hform, htarget⟩
  · rintro ⟨site, hsite, hform, htarget⟩
    obtain ⟨⟨property, place⟩, value, hvalue, hsite⟩ :=
      r.enumerates_propertySites.mem_iff.1 hsite
    exact ⟨property, value, place, site, hvalue, hsite, hform, htarget⟩

namespace EdgeRow

variable {row : EdgeRow} {v : String}

theorem get?_link (row : EdgeRow) (target v : String) (kind : EdgeKind) :
    (row.link target kind).get? v =
      (row.get? v).or (if v = target then some kind else none) := by
  unfold link
  split
  · next hcontains =>
      obtain ⟨found, hfound⟩ := NameTable.mem_names_iff_get?.1 (NameTable.contains_iff.1 hcontains)
      by_cases hv : v = target
      · simp [hv, hfound]
      · simp [hv]
  · next hcontains =>
      have hnone := NameTable.get?_eq_none_iff.2 (mt NameTable.contains_iff.2 hcontains)
      rw [NameTable.get?_insert]
      by_cases hv : v = target
      · simp [hv, hnone]
      · simp [hv, Ne.symm hv]

/-- The edges that are there stay, and each new target gets one. -/
theorem get?_linkAll (row : EdgeRow) (kind : EdgeKind) (targets : List String) (v : String) :
    (row.linkAll kind targets).get? v =
      (row.get? v).or (if v ∈ targets then some kind else none) := by
  induction targets generalizing row with
  | nil => simp [linkAll]
  | cons head rest ih =>
      have hrest := ih (row.link head kind)
      rw [get?_link, Option.or_assoc] at hrest
      refine hrest.trans (congrArg (Option.or _) ?_)
      by_cases hhead : v = head
      · simp [hhead]
      · simp [hhead]

end EdgeRow

namespace DependencyGraph

variable {g : DependencyGraph} {u v : String}

/-- Of the given edges, those between two nodes are kept. -/
theorem edgeKind?_ofRows
    (rows : NameTable EdgeRow) (parameters : NameTable NameSet)
    (warnings : List AmbiguousMatch) (u v : String) :
    (ofRows rows parameters warnings).edgeKind? u v =
      if v ∈ rows.names ∧ v ≠ u then (rows.get? u).bind fun row => row.get? v else none := by
  show ((soundRows rows).get? u).bind (fun row => row.get? v) = _
  unfold soundRows
  rw [NameTable.get?_mapEntries]
  cases rows.get? u with
  | none => simp
  | some row =>
      show (row.filter _).get? v = _
      rw [NameTable.get?_filter]
      cases hget : row.get? v with
      | none => simp [hget]
      | some kind => simp [hget, Option.filter_some]

end DependencyGraph

namespace Blueprint

variable {b : Blueprint} {g : DependencyGraph} {r : Resource} {u v : String}

theorem mem_targetsOf_iff
    {kind : EdgeKind} :
    v ∈ b.targetsOf r kind ↔
      ∃ found ∈ b.resolvedSites r,
        (found.resolution = .resource ∧ found.kind = kind) ∧ found.site.target = v := by
  simp [targetsOf, List.mem_filterMap]

/-- Conditions are never found among the resources. -/
theorem mem_targetsOf_reference_iff :
    v ∈ b.targetsOf r .reference ↔ v ∈ b.scope.resources.names ∧ r.Mentions v := by
  rw [mem_targetsOf_iff]
  simp only [resolvedSites, List.mem_append, List.mem_map, Scope.resolve_eq_answer]
  constructor
  · rintro ⟨_, ⟨site, hsite, rfl⟩ | ⟨site, -, rfl⟩, ⟨hfound, hkind⟩, rfl⟩
    · obtain ⟨hexpected, hscope⟩ := Scope.answer_eq_resource_iff.1 hfound
      have hform := ReferenceForm.expected_ne_condition_iff.1 hexpected
      refine ⟨hscope, ?_⟩
      rcases hsite with hproperty | hcondition
      · obtain ⟨⟨property, place⟩, value, hvalue, hsite⟩ :=
          r.enumerates_propertySites.mem_iff.1 hproperty
        exact ⟨property, value, place, site, hvalue, hsite, hform, rfl⟩
      · obtain ⟨name, -, rfl⟩ := List.mem_map.1 hcondition
        exact absurd rfl hform
    · cases hkind
  · rintro ⟨hscope, property, value, place, site, hvalue, hsite, hform, rfl⟩
    have hmem := r.enumerates_propertySites.mem_iff.2 ⟨(property, place), value, hvalue, hsite⟩
    refine ⟨_, Or.inl ⟨site, Or.inl hmem, rfl⟩, ⟨?_, rfl⟩, rfl⟩
    exact Scope.answer_eq_resource_iff.2 ⟨ReferenceForm.expected_ne_condition_iff.2 hform, hscope⟩

theorem mem_targetsOf_dependsOn_iff :
    v ∈ b.targetsOf r .dependsOn ↔ v ∈ b.scope.resources.names ∧ v ∈ r.dependsOn := by
  rw [mem_targetsOf_iff, ← Scope.isResource_iff]
  simp only [resolvedSites, Resource.dependsOnSites, List.mem_append, List.mem_map]
  have hresolve : b.resolveDependsOn v = .resource ↔ b.scope.isResource v = true := by
    unfold resolveDependsOn
    by_cases h : b.scope.isResource v <;> simp [h]
  constructor
  · rintro ⟨_, ⟨site, -, rfl⟩ | ⟨site, hsite, rfl⟩, ⟨hfound, hkind⟩, rfl⟩
    · cases hkind
    · obtain ⟨index, hindex, rfl⟩ := List.mem_mapIdx.1 hsite
      exact ⟨hresolve.1 hfound, List.getElem_mem hindex⟩
  · rintro ⟨hscope, hmem⟩
    obtain ⟨index, hindex, rfl⟩ := List.getElem_of_mem hmem
    exact ⟨_, Or.inr ⟨_, List.mem_mapIdx.2 ⟨index, hindex, rfl⟩, rfl⟩,
      ⟨hresolve.2 hscope, rfl⟩, rfl⟩

/-- An edge is of the first kind that there is a reason for. -/
theorem get?_edgeRow (b : Blueprint) (found : NameTable Recovered) (id : String) (r : Resource)
    (v : String) :
    (b.edgeRow found id r).get? v =
      if v ∈ b.targetsOf r .reference then some .reference
      else if v ∈ b.targetsOf r .dependsOn then some .dependsOn
      else if ∃ more, found.get? id = some more ∧ v ∈ more.dependencies.map (·.target) then
        some .recovered
      else none := by
  unfold edgeRow
  cases found.get? id with
  | none =>
      simp only [EdgeRow.get?_linkAll, NameTable.get?_empty, Option.none_or]
      split <;> simp
  | some more =>
      simp only [EdgeRow.get?_linkAll, NameTable.get?_empty, Option.none_or, Option.some.injEq,
        exists_eq_left']
      split
      · simp
      · split <;> simp

section Kinds

variable (hscope : b.scope.resources.names = b.resources.names)

include hscope in
/-- Where no resource refers to itself, what one names is something else. -/
theorem ne_of_targets
    (hself : b.selfReferences = []) (hr : b.resources.get? u = some r)
    (hv : r.Mentions v ∨ v ∈ r.dependsOn) : v ≠ u := by
  rintro rfl
  have hmem : v ∈ b.scope.resources.names := by
    rw [hscope]
    exact NameTable.mem_names_iff_get?.2 ⟨r, hr⟩
  have hnone := b.enumerates_selfReferences.eq_nil_iff.1 hself
  rcases hv with ⟨property, value, place, site, hvalue, hsite, hform, htarget⟩ | hv
  · refine hnone (v, .property property place) (v, site.path)
      ⟨r, hr, .ofSite site, .property hvalue hsite, ⟨?_, htarget⟩, rfl⟩
    exact Scope.answer_eq_resource_iff.2
      ⟨ReferenceForm.expected_ne_condition_iff.2 hform, (congrArg (· ∈ _) htarget).mpr hmem⟩
  · obtain ⟨index, hindex⟩ := List.mem_iff_getElem?.1 hv
    refine hnone (v, .dependsOn index) (v, itemPath "DependsOn" index)
      ⟨r, hr, _, .dependsOn hindex, ⟨?_, rfl⟩, rfl⟩
    exact Scope.answer_eq_resource_iff.2 ⟨by simp, hmem⟩

include hscope in
/-- An edge is of the first kind that there is a reason for.  What a resource
states, it states about others; of what is recovered, only this is kept. -/
theorem edgeKind?_soundGraph
    (hself : b.selfReferences = []) (hr : b.resources.get? u = some r) (v : String) :
    b.soundGraph.edgeKind? u v =
      if v ∈ b.targetsOf r .reference then some .reference
      else if v ∈ b.targetsOf r .dependsOn then some .dependsOn
      else if (v ∈ b.resources.names ∧ v ≠ u) ∧
          ∃ more, b.recovered.get? u = some more ∧ v ∈ more.dependencies.map (·.target) then
        some .recovered
      else none := by
  unfold soundGraph edgeRows
  rw [DependencyGraph.edgeKind?_ofRows, NameTable.names_mapEntries, NameTable.get?_mapEntries, hr,
    Option.map_some, Option.bind_some, get?_edgeRow]
  -- What a target needs to be kept, it has.
  have hkept : ∀ v, (v ∈ b.scope.resources.names ∧ (r.Mentions v ∨ v ∈ r.dependsOn)) →
      v ∈ b.resources.names ∧ v ≠ u := fun v hv =>
    ⟨hscope ▸ hv.1, ne_of_targets hscope hself hr hv.2⟩
  split
  · next hother => simp only [and_iff_right hother]
  · next hdropped =>
      have hreference : v ∉ b.targetsOf r .reference := fun hmem =>
        hdropped (hkept v ((mem_targetsOf_reference_iff.1 hmem).imp_right Or.inl))
      have hdependsOn : v ∉ b.targetsOf r .dependsOn := fun hmem =>
        hdropped (hkept v ((mem_targetsOf_dependsOn_iff.1 hmem).imp_right Or.inr))
      rw [if_neg hreference, if_neg hdependsOn, if_neg fun h => hdropped h.1]

include hscope in
theorem edgeKind?_of_graph
    (hrecovery : b.recovery = none) (h : b.graph = .ok g) (hr : b.resources.get? u = some r)
    (v : String) :
    g.edgeKind? u v =
      if v ∈ b.targetsOf r .reference then some .reference
      else if v ∈ b.targetsOf r .dependsOn then some .dependsOn
      else none := by
  obtain ⟨-, hself, rfl⟩ := graph_eq_ok_iff.1 h
  have hnothing : b.recovered.get? u = some ⟨[], []⟩ := by
    simp [recovered, hrecovery, hr]
  rw [edgeKind?_soundGraph hscope hself hr, hnothing]
  simp

theorem edgeKind?_of_get?_eq_none
    (h : b.graph = .ok g) (hnone : b.resources.get? u = none) (v : String) :
    g.edgeKind? u v = none := by
  obtain ⟨-, -, rfl⟩ := graph_eq_ok_iff.1 h
  unfold soundGraph edgeRows
  rw [DependencyGraph.edgeKind?_ofRows, NameTable.get?_mapEntries, hnone]
  simp

end Kinds

section Parameters

theorem mem_parametersOf_iff :
    v ∈ (b.parametersOf r).names ↔
      ∃ found ∈ b.resolvedSites r, found.resolution = .parameter ∧ found.site.target = v := by
  simp [parametersOf, List.mem_filterMap]

/-- What a resource mentions and is no resource, is a parameter, as it is in
scope. -/
theorem mem_parametersOf_iff_mentions
    (hunresolved : b.unresolved = []) (hr : b.resources.get? u = some r) :
    v ∈ (b.parametersOf r).names ↔ r.Mentions v ∧ v ∉ b.scope.resources.names := by
  rw [mem_parametersOf_iff]
  simp only [resolvedSites, List.mem_append, List.mem_map, Scope.resolve_eq_answer]
  constructor
  · rintro ⟨_, ⟨site, hsite, rfl⟩ | ⟨site, -, rfl⟩, hfound, rfl⟩
    · obtain ⟨hexpected, hresource, -⟩ := Scope.answer_eq_parameter_iff.1 hfound
      have hform : site.form ≠ .condition :=
        ReferenceForm.expected_ne_condition_iff.1 (by rw [hexpected]; simp)
      rcases hsite with hproperty | hcondition
      · exact ⟨Resource.mentions_iff.2 ⟨site, hproperty, hform, rfl⟩, hresource⟩
      · obtain ⟨name, -, rfl⟩ := List.mem_map.1 hcondition
        exact absurd rfl hform
    · dsimp only [resolveDependsOn] at hfound
      split at hfound <;> cases hfound
  · rintro ⟨hmentions, hresource⟩
    obtain ⟨property, value, place, site, hvalue, hsite, hform, rfl⟩ := hmentions
    have hmem := r.enumerates_propertySites.mem_iff.2 ⟨(property, place), value, hvalue, hsite⟩
    refine ⟨_, Or.inl ⟨site, Or.inl hmem, rfl⟩, Scope.answer_eq_parameter_iff.2 ?_, rfl⟩
    have hdeclares : b.scope.Declares site.form.expected site.target := by
      by_contra hnot
      exact b.enumerates_unresolved.eq_nil_iff.1 hunresolved
        (.resource u (.property property place)) _
        ⟨u, .ofSite site, .resource hr (.property hvalue hsite), hnot,
          Scope.report_eq_iff.1 rfl⟩
    have hcondition := ReferenceForm.expected_ne_condition_iff.2 hform
    cases hexpected : site.form.expected with
    | resource =>
        rw [hexpected] at hdeclares
        exact absurd hdeclares hresource
    | resourceOrParameter =>
        rw [hexpected] at hdeclares
        exact ⟨rfl, hresource, hdeclares.resolve_left hresource⟩
    | condition => exact absurd hexpected hcondition

theorem mem_parameterReferences_soundGraph :
    v ∈ (b.soundGraph.parameterReferences u).names ↔
      ∃ r, b.resources.get? u = some r ∧ v ∈ (b.parametersOf r).names := by
  unfold DependencyGraph.parameterReferences
  show v ∈ ((b.parameterTable.get? u).getD .empty).names ↔ _
  unfold parameterTable
  rw [NameTable.get?_filter, NameTable.get?_map]
  cases hr : b.resources.get? u with
  | none => simp
  | some r =>
      by_cases hempty : (b.parametersOf r).isEmpty = true
      · have hnone := (NameTable.isEmpty_iff _).1 hempty
        simp only [hnone, Option.map_some, Option.some.injEq, exists_eq_left']
        rfl
      · simp [hempty, Option.filter_some]

/-- The parameters of a resource are what it mentions, other than resources. -/
theorem mem_parameterReferences_iff
    (h : b.graph = .ok g) :
    v ∈ (g.parameterReferences u).names ↔
      v ∉ b.scope.resources.names ∧ ∃ r, b.resources.get? u = some r ∧ r.Mentions v := by
  obtain ⟨hunresolved, -, rfl⟩ := graph_eq_ok_iff.1 h
  rw [mem_parameterReferences_soundGraph]
  constructor
  · rintro ⟨r, hr, hv⟩
    obtain ⟨hmentions, hresource⟩ := (mem_parametersOf_iff_mentions hunresolved hr).1 hv
    exact ⟨hresource, r, hr, hmentions⟩
  · rintro ⟨hresource, r, hr, hmentions⟩
    exact ⟨r, hr, (mem_parametersOf_iff_mentions hunresolved hr).2 ⟨hmentions, hresource⟩⟩

end Parameters

/-- **The edges are what resources mention and what they explicitly depend
on.**  This holds of resources with any parameters, conditions and outputs
beside them: a name is looked up among the resources whatever else it names,
and no condition makes an edge.  A mention of the target decides the kind. -/
theorem edges_of_mentions_and_dependsOn
    {resources : ResourceSet} {parameters conditions : NameSet}
    {expressions : NameTable Value} {outputs : NameTable Output}
    (h : graph
      { resources := resources
        scope := ⟨resources.map fun _ => (), parameters, conditions⟩
        conditions := expressions
        outputs := outputs
        recovery := none } = .ok g) :
    g.ids = resources.names ∧ ∀ u v,
      (v ∈ g.dependencies u ↔
        v ∈ resources.names ∧
          ∃ r, resources.get? u = some r ∧ (r.Mentions v ∨ v ∈ r.dependsOn)) ∧
      (g.edgeKind? u v = some .reference ↔
        v ∈ resources.names ∧ ∃ r, resources.get? u = some r ∧ r.Mentions v) ∧
      (g.edgeKind? u v = some .dependsOn ↔
        v ∈ resources.names ∧
          ∃ r, resources.get? u = some r ∧ v ∈ r.dependsOn ∧ ¬ r.Mentions v) ∧
      g.edgeKind? u v ≠ some .recovered := by
  classical
  refine ⟨ids_of_graph h, fun u v => ?_⟩
  rw [DependencyGraph.mem_dependencies_iff_edgeKind?]
  cases hr : resources.get? u with
  | none => simp [edgeKind?_of_get?_eq_none h hr]
  | some r =>
      have hnames : (resources.map fun _ => ()).names = resources.names := NameTable.names_map ..
      rw [edgeKind?_of_graph hnames rfl h hr]
      simp only [mem_targetsOf_reference_iff, mem_targetsOf_dependsOn_iff, hnames]
      by_cases hv : v ∈ resources.names
      · by_cases hmentions : r.Mentions v
        · simp [hv, hmentions]
        · by_cases hdepends : v ∈ r.dependsOn
          · simp [hv, hmentions, hdepends]
          · simp [hv, hmentions, hdepends]
      · simp [hv]

/-- A resource that mentions the next one and depends on it explicitly, too, one
that only depends explicitly, and one that mentions the next one in a template
of text. -/
def linked : ResourceSet :=
  .ofList
    [("A", ((Resource.ofType "T").withProperty "P" (.ref "B")).withDependency "B"),
      ("B", (Resource.ofType "T").withDependency "C"),
      ("C", (Resource.ofType "T").withProperty "N" (.sub "$\x7bAWS::Region\x7d-$\x7bD.Arn\x7d")),
      ("D", Resource.ofType "T")]

/-- The linked resources, one of which shares its name with a condition. -/
def ofLinked : Blueprint where
  resources := linked
  scope := ⟨linked.map fun _ => (), .empty, .ofList ["B"]⟩
  conditions := .empty
  outputs := .empty
  recovery := none

theorem edges_of_linked :
    ofLinked.graph = .ok ofLinked.soundGraph ∧
      ofLinked.soundGraph.edgeKind? "A" "B" = some .reference ∧
      ofLinked.soundGraph.edgeKind? "B" "C" = some .dependsOn ∧
      ofLinked.soundGraph.edgeKind? "C" "D" = some .reference := by
  have hgraph : ofLinked.graph = .ok ofLinked.soundGraph :=
    graph_eq_ok_iff.2 ⟨by decide +kernel, by decide +kernel, rfl⟩
  have hedges := (edges_of_mentions_and_dependsOn hgraph).2
  have hmentions : Resource.Mentions
      (((Resource.ofType "T").withProperty "P" (.ref "B")).withDependency "B") "B" :=
    ⟨"P", .ref "B", ([], 0), ⟨"Properties.P", "B", .ref⟩, by decide +kernel,
      ⟨.ref "B", rfl, .ref "B"⟩, by decide, rfl⟩
  have hplaceholder : Resource.Mentions
      ((Resource.ofType "T").withProperty "N" (.sub "$\x7bAWS::Region\x7d-$\x7bD.Arn\x7d")) "D" :=
    ⟨"N", .sub "$\x7bAWS::Region\x7d-$\x7bD.Arn\x7d", ([], 1),
      ⟨"Properties.N", "D", .placeholder (some "Arn")⟩, by decide +kernel,
      ⟨.sub "$\x7bAWS::Region\x7d-$\x7bD.Arn\x7d", rfl,
        .placeholder (p := ⟨"D", some "Arn"⟩) (by decide +kernel) (by decide) (by simp)⟩,
      by decide, rfl⟩
  have hunmentioned : ¬ Resource.Mentions ((Resource.ofType "T").withDependency "C") "C" := by
    rintro ⟨property, value, place, site, hvalue, -⟩
    cases hvalue
  refine ⟨hgraph, (hedges "A" "B").2.1.2 ⟨by decide +kernel, _, by decide +kernel, hmentions⟩, ?_, ?_⟩
  · exact (hedges "B" "C").2.2.1.2
      ⟨by decide +kernel, _, by decide +kernel, by decide +kernel, hunmentioned⟩
  · exact (hedges "C" "D").2.1.2 ⟨by decide +kernel, _, by decide +kernel, hplaceholder⟩

end Blueprint
end CloudTemplate
