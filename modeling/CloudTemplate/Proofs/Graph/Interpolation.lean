import CloudTemplate.Proofs.Graph.Edges
import CloudTemplate.Proofs.Reference.Replacement

/-!
# References that are written as placeholders

A reference in a property may be written as a call of `Fn::Sub` whose template is
a single placeholder (`Placeholder.text`).  The placeholder stands at the path of
the reference and resolves in the same way, so this makes no difference to the
graph, with one exception: a placeholder that names a pseudo parameter is no
reference at all, while a `Ref` or an `Fn::GetAtt` of this name is one.

Main statement: `Blueprint.graph_interpolated` says what the graph is in either
case.  For a pseudo parameter, the `Ref` and the placeholder differ in the
parameters of the resource (`Blueprint.not_forall_parameterReferences_eq`), and in
nothing else.
-/

namespace CloudTemplate

/-- Replace the node at a position of a property. -/
def Resource.replaceAt (r : Resource) (property : String) (position : List Nat) (new : Value) :
    Resource :=
  { r with properties := r.properties.modify property (Value.replaceAt new position) }

/-- Replace the node at a position of a property of a resource.  The names in
scope stay the same. -/
def Blueprint.replaceAt (b : Blueprint) (id property : String) (position : List Nat)
    (new : Value) : Blueprint :=
  { b with resources := b.resources.modify id fun r => r.replaceAt property position new }

variable {b : Blueprint} {r : Resource} {id property path : String} {position : List Nat}
variable {value old new : Value} {p : Placeholder}

namespace Resource

theorem replaceAt_replaceAt (r : Resource) (property : String) (position : List Nat)
    (old new : Value) :
    (r.replaceAt property position old).replaceAt property position new =
      r.replaceAt property position new := by
  unfold replaceAt
  simp only [NameTable.modify_modify, Value.replaceAt_replaceAt]

/-- The references in the properties are those around the position and those
at it. -/
theorem exists_propertySites_replaceAt
    (hproperty : r.properties.get? property = some value)
    (hnode : value.nodeAt? ("Properties." ++ property) position = some (path, old))
    (hold : old.Unread) :
    ∃ before after, r.propertySites = before ++ old.sites path ++ after ∧
      ∀ new : Value, new.Unread →
        (r.replaceAt property position new).propertySites =
          before ++ new.sites path ++ after := by
  obtain ⟨front, back, hentries, hmodify⟩ := NameTable.exists_entries_modify hproperty
  obtain ⟨before, after, hsites, hreplaced⟩ := Value.exists_sites_replaceAt hnode hold
  let sitesOf (entry : String × Value) := entry.2.sites ("Properties." ++ entry.1)
  refine ⟨front.flatMap sitesOf ++ before, after ++ back.flatMap sitesOf, ?_,
    fun new hnew => ?_⟩
  · show r.properties.entries.flatMap sitesOf = _
    rw [hentries, List.flatMap_append, List.flatMap_cons]
    simp only [sitesOf, hsites, List.append_assoc]
  · show (r.properties.modify property _).entries.flatMap sitesOf = _
    rw [hmodify, List.flatMap_append, List.flatMap_cons]
    simp only [sitesOf, hreplaced new hnew, List.append_assoc]

end Resource

namespace Blueprint

section Replacement

/-- A reference in a property, resolved. -/
def resolved (b : Blueprint) (site : ReferenceSite) : ResolvedSite :=
  ⟨site, .reference, b.scope.resolve site.target site.form⟩

/-- What a loop over the references of a resource collects is the same for two
nodes at a position from which it collects the same. -/
theorem filterMap_resolvedSites_replaceAt
    {β : Type} (f : ResolvedSite → Option β)
    (hproperty : r.properties.get? property = some value)
    (hnode : value.nodeAt? ("Properties." ++ property) position = some (path, old))
    (hold : old.Unread) (hnew : new.Unread)
    (hsame : ((new.sites path).map b.resolved).filterMap f =
      ((old.sites path).map b.resolved).filterMap f) :
    (b.resolvedSites (r.replaceAt property position new)).filterMap f =
      (b.resolvedSites r).filterMap f := by
  obtain ⟨before, after, hsites, hreplaced⟩ :=
    Resource.exists_propertySites_replaceAt hproperty hnode hold
  have hproperties : (((r.replaceAt property position new).propertySites).map
        b.resolved).filterMap f = ((r.propertySites).map b.resolved).filterMap f := by
    rw [hsites, hreplaced new hnew]
    simp only [List.map_append, List.filterMap_append, hsame]
  show (((((r.replaceAt property position new).propertySites ++ conditionSites r.condition).map
      b.resolved) ++ r.dependsOnSites.map _)).filterMap f = _
  unfold resolvedSites
  simp only [List.map_append, List.filterMap_append, hproperties]
  rfl

theorem replaceAt_eq_mapResources (b : Blueprint) (id property : String)
    (position : List Nat) (new : Value) :
    b.replaceAt id property position new = b.mapResources fun key r =>
      if key = id then r.replaceAt property position new else r := by
  unfold replaceAt mapResources
  rw [NameTable.modify_eq_mapEntries]

/-- What is read of all resources is the same, if it is of the changed one. -/
theorem read_eq_of_replaceAt
    {β : Type} {read : Resource → β} (hresource : b.resources.get? id = some r)
    (h : read (r.replaceAt property position new) = read r) (key : String) (r' : Resource)
    (hr' : b.resources.get? key = some r') :
    read (if key = id then r'.replaceAt property position new else r') = read r' := by
  by_cases hkey : key = id
  · subst hkey
    cases hresource.symm.trans hr'
    rw [if_pos rfl, h]
  · rw [if_neg hkey]

theorem graph_replaceAt
    (hrecovery : b.recovery = none) (hresource : b.resources.get? id = some r)
    (hlinks : b.links (r.replaceAt property position new) = b.links r) :
    (b.replaceAt id property position new).graph = b.graph.map fun g =>
      { g with parameters := (b.replaceAt id property position new).parameterTable } := by
  rw [replaceAt_eq_mapResources]
  exact graph_mapResources (read_eq_of_replaceAt hresource hlinks) hrecovery

theorem graph_replaceAt_eq
    (hrecovery : b.recovery = none) (hresource : b.resources.get? id = some r)
    (hlinks : b.links (r.replaceAt property position new) = b.links r)
    (hparameters : b.parametersOf (r.replaceAt property position new) = b.parametersOf r) :
    (b.replaceAt id property position new).graph = b.graph := by
  rw [replaceAt_eq_mapResources]
  exact graph_mapResources_eq (read_eq_of_replaceAt hresource hlinks) hrecovery
    (read_eq_of_replaceAt hresource hparameters)

theorem replaceAt_replaceAt (b : Blueprint) (id property : String) (position : List Nat)
    (old new : Value) :
    (b.replaceAt id property position old).replaceAt id property position new =
      b.replaceAt id property position new := by
  unfold replaceAt
  simp only [NameTable.modify_modify, Resource.replaceAt_replaceAt]

/-- Two replacements that refer to the same leave the same graph. -/
theorem graph_replaceAt_eq_of_sites
    {new' : Value} (hrecovery : b.recovery = none) (hresource : b.resources.get? id = some r)
    (hproperty : r.properties.get? property = some value)
    (hnode : value.nodeAt? ("Properties." ++ property) position = some (path, old))
    (hold : old.Unread) (hnew : new.Unread) (hnew' : new'.Unread)
    (hsites : new'.sites path = new.sites path) :
    (b.replaceAt id property position new').graph =
      (b.replaceAt id property position new).graph := by
  have hresolved : b.resolvedSites (r.replaceAt property position new') =
      b.resolvedSites (r.replaceAt property position new) := by
    obtain ⟨before, after, -, hreplaced⟩ :=
      Resource.exists_propertySites_replaceAt hproperty hnode hold
    unfold resolvedSites
    rw [hreplaced new' hnew', hreplaced new hnew, hsites]
    rfl
  have hresource' : (b.replaceAt id property position new).resources.get? id =
      some (r.replaceAt property position new) := by
    show (b.resources.modify id _).get? id = _
    rw [NameTable.get?_modify, if_pos rfl, hresource]
    rfl
  rw [← replaceAt_replaceAt b id property position new new']
  refine graph_replaceAt_eq hrecovery hresource' ?_ ?_
  · rw [Resource.replaceAt_replaceAt]
    exact congrArg (List.filterMap link?) hresolved
  · rw [Resource.replaceAt_replaceAt]
    exact congrArg (fun sites => NameSet.ofList (List.filterMap _ sites)) hresolved

end Replacement

section Interpolation

theorem unread_reference (p : Placeholder) : p.reference.Unread := by
  unfold Placeholder.reference
  cases p.attr <;> exact ⟨rfl, rfl⟩

theorem unread_sub (template : String) : (Value.sub template).Unread := ⟨rfl, rfl⟩

/-- A placeholder resolves as the reference of its name. -/
theorem resolve_placeholder (scope : Scope) (name : String) (attr : Option String) :
    scope.resolve name (.placeholder attr) = scope.resolve name (attr.elim .ref .attr) := by
  rw [Scope.resolve_eq_answer, Scope.resolve_eq_answer]
  cases attr <;> rfl

variable (hrecovery : b.recovery = none) (hresource : b.resources.get? id = some r)
variable (hproperty : r.properties.get? property = some value)
variable (hnode : value.nodeAt? ("Properties." ++ property) position = some (path, p.reference))
variable (hplain : p.Plain)

include hrecovery hresource hproperty hnode hplain

/-- A placeholder that names no pseudo parameter stands for its reference. -/
theorem graph_interpolated_of_not_mem
    (hpseudo : p.name ∉ pseudoParameters) :
    (b.replaceAt id property position (.sub p.text)).graph = b.graph := by
  -- A loop that does not look at the form of a reference collects the same.
  have hsame : ∀ {β : Type} (f : EdgeKind → String → String → Resolution → Option β),
      (b.resolvedSites (r.replaceAt property position (.sub p.text))).filterMap
          (fun found => f found.kind found.site.path found.site.target found.resolution) =
        (b.resolvedSites r).filterMap
          fun found => f found.kind found.site.path found.site.target found.resolution := by
    intro β f
    refine filterMap_resolvedSites_replaceAt _ hproperty hnode (unread_reference p)
      (unread_sub p.text) ?_
    rw [Placeholder.sites_sub_text hplain, if_neg hpseudo, Placeholder.sites_reference]
    simp only [List.map_cons, List.map_nil, resolved, resolve_placeholder]
    rfl
  refine graph_replaceAt_eq hrecovery hresource ?_ ?_
  · exact hsame fun kind path target resolution =>
      if resolution = .parameter then none
      else some (⟨kind, path, target, resolution⟩ : Link)
  · exact congrArg NameSet.ofList <| hsame fun _ _ target resolution =>
      if resolution = .parameter then some target else none

/-- A placeholder that names a pseudo parameter counts as no reference. -/
theorem graph_interpolated_of_mem
    (hpseudo : p.name ∈ pseudoParameters) :
    (b.replaceAt id property position (.sub p.text)).graph =
      (b.replaceAt id property position .null).graph := by
  refine graph_replaceAt_eq_of_sites hrecovery hresource hproperty hnode (unread_reference p)
    ⟨rfl, rfl⟩ (unread_sub p.text) ?_
  rw [Placeholder.sites_sub_text hplain, if_pos hpseudo]
  rfl

/-- A `Ref` of a pseudo parameter and its placeholder differ in the parameters
of the resource: the name is missing unless another reference has it. -/
theorem graph_interpolated_ref
    (hpseudo : p.name ∈ pseudoParameters) (hattr : p.attr = none)
    (hname : p.name ∉ b.scope.resources.names) :
    match b.graph, (b.replaceAt id property position (.sub p.text)).graph with
    | .ok g, .ok g' =>
        g'.rows = g.rows ∧ g'.warnings = g.warnings ∧
          ∀ u name, name ∈ (g'.parameterReferences u).names ↔
            name ∈ (g.parameterReferences u).names ∧
              (u = id → name = p.name →
                (r.replaceAt property position (.sub p.text)).Mentions name)
    | .error reason, .error reason' => reason' = reason
    | _, _ => False := by
  have hnothing : (Value.sub p.text).sites path = [] := by
    rw [Placeholder.sites_sub_text hplain, if_pos hpseudo]
  have href : p.reference.sites path = [⟨path, p.name, .ref⟩] := by
    rw [Placeholder.sites_reference, hattr]
    rfl
  have hparameter : b.scope.resolve p.name .ref = .parameter := by
    rw [Scope.resolve_eq_answer, Scope.answer_eq_parameter_iff]
    exact ⟨rfl, hname, Or.inr hpseudo⟩
  have hlinks : b.links (r.replaceAt property position (.sub p.text)) = b.links r := by
    refine filterMap_resolvedSites_replaceAt link? hproperty hnode (unread_reference p)
      (unread_sub p.text) ?_
    rw [hnothing, href]
    simp [resolved, hparameter, link?]
  -- What is mentioned is mentioned by the replaced reference or another one.
  have hmentions : ∀ name, r.Mentions name ↔
      name = p.name ∨ (r.replaceAt property position (.sub p.text)).Mentions name := by
    obtain ⟨before, after, hsites, hreplaced⟩ :=
      Resource.exists_propertySites_replaceAt hproperty hnode (unread_reference p)
    intro name
    rw [Resource.mentions_iff, Resource.mentions_iff, hsites, href,
      hreplaced _ (unread_sub p.text), hnothing]
    simp [or_and_right, exists_or, or_left_comm, eq_comm]
  have hgraph := graph_replaceAt hrecovery hresource hlinks
  cases hbefore : b.graph with
  | error reason =>
      rw [hbefore] at hgraph
      rw [hgraph]
      rfl
  | ok g =>
      rw [hbefore] at hgraph
      rw [hgraph]
      refine ⟨rfl, rfl, fun u name => ?_⟩
      rw [mem_parameterReferences_iff hbefore]
      refine (mem_parameterReferences_iff hgraph).trans ?_
      show (name ∉ b.scope.resources.names ∧
        ∃ r', (b.resources.modify id _).get? u = some r' ∧ r'.Mentions name) ↔ _
      rw [NameTable.get?_modify]
      by_cases hu : id = u
      · subst hu
        rw [if_pos rfl, hresource]
        simp only [Option.map_some, Option.some.injEq, exists_eq_left', hmentions, true_imp_iff]
        tauto
      · rw [if_neg hu]
        simp [Ne.symm hu]

/-- **A reference that is written as a placeholder leaves the graph as it is,
unless it names a pseudo parameter.**  A placeholder that names one counts as no
reference, as if there were a literal.  Where the reference is a `Ref` of a pseudo
parameter, and no resource has this name, it does not matter to anything but the
parameters of the resource: they are without the name, unless another reference
has it. -/
theorem graph_interpolated :
    (p.name ∉ pseudoParameters →
      (b.replaceAt id property position (.sub p.text)).graph = b.graph) ∧
    (p.name ∈ pseudoParameters →
      (b.replaceAt id property position (.sub p.text)).graph =
        (b.replaceAt id property position .null).graph ∧
      (p.attr = none → p.name ∉ b.scope.resources.names →
        match b.graph, (b.replaceAt id property position (.sub p.text)).graph with
        | .ok g, .ok g' =>
            g'.rows = g.rows ∧ g'.warnings = g.warnings ∧
              ∀ u name, name ∈ (g'.parameterReferences u).names ↔
                name ∈ (g.parameterReferences u).names ∧
                  (u = id → name = p.name →
                    (r.replaceAt property position (.sub p.text)).Mentions name)
        | .error reason, .error reason' => reason' = reason
        | _, _ => False)) := by
  refine ⟨fun hpseudo => ?_, fun hpseudo => ⟨?_, fun hattr hname => ?_⟩⟩
  · exact graph_interpolated_of_not_mem hrecovery hresource hproperty hnode hplain hpseudo
  · exact graph_interpolated_of_mem hrecovery hresource hproperty hnode hplain hpseudo
  · exact graph_interpolated_ref hrecovery hresource hproperty hnode hplain hpseudo hattr hname

end Interpolation

/-- A value with references to a resource and to a pseudo parameter. -/
def joined : Value :=
  .apply .join [.string "-", .list [.ref "B", .ref "AWS::Region"]]

/-- A resource with this value. -/
def joining : Resource :=
  (Resource.ofType "T").withProperty "P" joined

/-- The resource, and the one that it refers to. -/
def ofJoining : Blueprint :=
  ofResources (.ofList [("A", joining), ("B", Resource.ofType "T")])

theorem graph_ofJoining : ofJoining.graph = .ok ofJoining.soundGraph :=
  graph_eq_ok_iff.2 ⟨by decide +kernel, by decide +kernel, rfl⟩

theorem get?_ofJoining :
    ofJoining.resources.get? "A" = some joining ∧ joining.properties.get? "P" = some joined := by
  refine ⟨?_, ?_⟩
  · exact (NameTable.get?_ofList _ _).trans (by simp [Entries.lookup])
  · exact (NameTable.get?_insert ..).trans (if_pos rfl)

theorem plain_of_joining :
    ∀ name ∈ ["B", "AWS::Region"], (Placeholder.mk name none).Plain := by
  intro name hname
  refine ⟨?_, ?_, ?_, ?_, ?_, nofun, nofun⟩ <;> revert name <;> decide

theorem graph_interpolated_joining :
    (ofJoining.replaceAt "A" "P" [1, 0] (.sub "$\x7bB\x7d")).graph = ofJoining.graph ∧
      (ofJoining.replaceAt "A" "P" [1, 1] (.sub "$\x7bAWS::Region\x7d")).graph =
        (ofJoining.replaceAt "A" "P" [1, 1] .null).graph ∧
      ∃ g', (ofJoining.replaceAt "A" "P" [1, 1] (.sub "$\x7bAWS::Region\x7d")).graph = .ok g' ∧
        g'.rows = ofJoining.soundGraph.rows := by
  obtain ⟨hresource, hproperty⟩ := get?_ofJoining
  have hother : joined.nodeAt? ("Properties." ++ "P") [1, 0] =
      some (_, Placeholder.reference ⟨"B", none⟩) := rfl
  have hregion : joined.nodeAt? ("Properties." ++ "P") [1, 1] =
      some (_, Placeholder.reference ⟨"AWS::Region", none⟩) := rfl
  obtain ⟨hplaceholder, -⟩ := graph_interpolated rfl hresource hproperty hother
    (plain_of_joining "B" (by decide))
  obtain ⟨-, hpseudo⟩ := graph_interpolated rfl hresource hproperty hregion
    (plain_of_joining "AWS::Region" (by decide))
  obtain ⟨hliteral, href⟩ := hpseudo (by decide)
  refine ⟨hplaceholder (by decide), hliteral, ?_⟩
  have hname : "AWS::Region" ∉ ofJoining.scope.resources.names := by
    simp [ofJoining, ofResources, NameTable.mem_names_ofList, Entries.names]
  replace href := href rfl hname
  rw [graph_ofJoining] at href
  split at href
  · next g g' hbefore hafter =>
    cases hbefore
    exact ⟨g', hafter, href.1⟩
  · next hbefore _ => cases hbefore
  · exact href.elim

/-- A `Ref` of a pseudo parameter is among the parameters of its resource, and
the placeholder is not. -/
theorem not_forall_parameterReferences_eq :
    ¬ ∀ (b : Blueprint) (r : Resource) (value : Value) (id property path : String)
      (position : List Nat) (p : Placeholder) (g g' : DependencyGraph),
      b.recovery = none → b.resources.get? id = some r →
        r.properties.get? property = some value →
        value.nodeAt? ("Properties." ++ property) position = some (path, p.reference) →
        p.Plain → b.graph = .ok g →
        (b.replaceAt id property position (.sub p.text)).graph = .ok g' →
          ∀ u, g'.parameterReferences u = g.parameterReferences u := by
  intro h
  obtain ⟨hresource, hproperty⟩ := get?_ofJoining
  let rewritten := ofJoining.replaceAt "A" "P" [1, 1] (.sub "$\x7bAWS::Region\x7d")
  have hgraph : rewritten.graph = .ok rewritten.soundGraph :=
    graph_eq_ok_iff.2 ⟨by decide +kernel, by decide +kernel, rfl⟩
  have hsame := h ofJoining joining joined "A" "P" _ [1, 1] ⟨"AWS::Region", none⟩ _ _ rfl
    hresource hproperty rfl (plain_of_joining "AWS::Region" (by decide)) graph_ofJoining hgraph
  have hdiffer : rewritten.soundGraph.parameterReferences "A" ≠
      ofJoining.soundGraph.parameterReferences "A" := by
    decide +kernel
  exact hdiffer (hsame "A")

end Blueprint
end CloudTemplate
