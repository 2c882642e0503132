import CloudTemplate.Proofs.Graph.CreationOrder
import CloudTemplate.Proofs.Graph.Emission

/-!
# Which group comes out next

A group may come out when all that its members depend on outside of it has come
out (`DependencyGraph.OuterReleased`), which is when its first member is ready
in the graph of the components (`ready_leader`).  So the loop over the
components takes the group with the least member of those that may come out.

Main statement: this holds at every turn, and where there are no cycles the
loop over the components and the loop over the nodes take the same turns
(`DependencyGraph.emissionOrder_takes_least_ready`).
-/

namespace CloudTemplate
namespace DependencyGraph

/-- What the members depend on is among them or in an earlier group. -/
def OuterReleased (g : DependencyGraph) (before : List EmissionGroup) (group : EmissionGroup) :
    Prop :=
  ∀ u ∈ group.members, ∀ v, g.Edge u v →
    v ∈ group.members ∨ ∃ earlier ∈ before, v ∈ earlier.members

variable {g : DependencyGraph} {c d : Component} {u v : String}

/-- The group that a component comes out as. -/
abbrev groupOf (g : DependencyGraph) (c : Component) : EmissionGroup :=
  EmissionGroup.ofMembers g c.names

section Turns

/-- Members ascend, so the first one is the least. -/
theorem leader_le (hu : u ∈ c.names) : c.leader ≤ u := by
  have hpairwise := c.pairwise_names
  unfold Component.leader
  cases hnames : c.names with
  | nil => simp [hnames] at hu
  | cons first rest =>
      rw [hnames] at hu hpairwise
      rcases List.mem_cons.1 hu with heq | hrest
      · exact heq.ge
      · exact ((List.pairwise_cons.1 hpairwise).1 u hrest).le

/-- The first member of a component is ready when the group may come out. -/
theorem ready_leader
    {before : List Component} (hbefore : ∀ c ∈ before, c ∈ g.components)
    (hd : d ∈ g.components) (hfresh : d ∉ before)
    (hreleased : g.OuterReleased (before.map g.groupOf) (g.groupOf d)) :
    Adjacency.Ready (g.condensation g.components) (before.map Component.leader).reverse
      d.leader := by
  refine ⟨mem_names_condensation_iff.2 ⟨d, hd, rfl⟩, fun hmem => ?_, fun dep hdep => ?_⟩
  · obtain ⟨c, hc, hleader⟩ := List.mem_map.1 (List.mem_reverse.1 hmem)
    exact hfresh (leader_injective (hbefore c hc) hd hleader ▸ hc)
  · obtain ⟨e, he, rfl, hne, x, hx, y, hy, hedge⟩ := (mem_row_condensation_iff hd).1 hdep
    have hx' := EmissionGroup.mem_members_ofMembers (g := g).2 hx
    rcases hreleased x hx' y hedge with hinner | ⟨_, hearlier, hmem⟩
    · rw [EmissionGroup.mem_members_ofMembers] at hinner
      exact absurd (component_unique he hd hy hinner) hne
    · obtain ⟨f, hf, rfl⟩ := List.mem_map.1 hearlier
      rw [EmissionGroup.mem_members_ofMembers] at hmem
      have heq : f = e := component_unique (hbefore f hf) he hmem hy
      exact List.mem_reverse.2 (List.mem_map.2 ⟨f, hf, by rw [heq]⟩)

/-- Of the groups that may come out, the one with the least member does. -/
theorem exists_member_lt_of_outerReleased
    {before after : List EmissionGroup} {group : EmissionGroup}
    (hsplit : g.emissionOrder = before ++ group :: after) :
    ∃ first ∈ group.members, ∀ other ∈ after, g.OuterReleased before other →
      ∀ v ∈ other.members, first < v := by
  obtain ⟨released, hperm, hleaders, horder⟩ := g.exists_released_components
  rw [horder, List.map_eq_append_iff] at hsplit
  obtain ⟨front, rest, rfl, rfl, hrest⟩ := hsplit
  obtain ⟨c, back, rfl, rfl, rfl⟩ := List.map_eq_cons_iff.1 hrest
  have hmem : ∀ d ∈ front ++ c :: back, d ∈ g.components := fun d => hperm.mem_iff.1
  have hc := hmem c (by simp)
  have hnodup := hperm.nodup_iff.2 g.nodup_components
  rw [List.nodup_append] at hnodup
  refine ⟨c.leader, EmissionGroup.mem_members_ofMembers.2 (leader_mem hc), ?_⟩
  intro other hother hreleased v hv
  obtain ⟨d, hd, rfl⟩ := List.mem_map.1 hother
  rw [EmissionGroup.mem_members_ofMembers] at hv
  have hfresh : d ∉ front := fun hfront =>
    hnodup.2.2 d hfront d (List.mem_cons_of_mem c hd) rfl
  have hready := ready_leader (fun e he => hmem e (by simp [he])) (hmem d (by simp [hd])) hfresh
    hreleased
  rw [List.map_append, List.map_cons] at hleaders
  have hle := (Adjacency.releaseOrder_leastFirst (g.condensation g.components)).le_of_ready
    hleaders.symm (by simpa using hready)
  have hne : c ≠ d := fun heq => (List.nodup_cons.1 hnodup.2.1).1 (heq ▸ hd)
  have hlt := lt_of_le_of_ne hle fun heq => hne (leader_injective hc (hmem d (by simp [hd])) heq)
  exact hlt.trans_le (leader_le hv)

end Turns

section Acyclic

/-- Without cycles every component is a single node. -/
theorem names_of_acyclic (hacyclic : g.Acyclic) (hc : c ∈ g.components) :
    c.names = [c.leader] := by
  have hsize : c.size = 1 := by
    by_contra hne
    exact hacyclic _ ((size_ne_one_iff hc (leader_mem hc)).1 hne)
  rw [← NameTable.length_names] at hsize
  obtain ⟨u, hu⟩ := List.length_eq_one_iff.1 hsize
  have hleader := leader_mem hc
  rw [hu, List.mem_singleton] at hleader
  rw [hu, hleader]

theorem mem_of_acyclic (hacyclic : g.Acyclic) (hc : c ∈ g.components) :
    u ∈ c.names ↔ u = c.leader := by
  rw [names_of_acyclic hacyclic hc, List.mem_singleton]

theorem exists_leader_eq_iff (hacyclic : g.Acyclic) :
    (∃ c ∈ g.components, c.leader = u) ↔ u ∈ g.ids := by
  rw [← exists_mem_components_iff]
  refine exists_congr fun c => and_congr_right fun hc => ?_
  rw [mem_of_acyclic hacyclic hc, eq_comm]

/-- Without cycles the graph of the components is the graph itself. -/
theorem mem_row_condensation_of_acyclic (hacyclic : g.Acyclic) :
    v ∈ Adjacency.row (g.condensation g.components) u ↔ g.Edge u v := by
  constructor
  · intro hrow
    obtain ⟨c, hc, rfl⟩ := mem_names_condensation_iff.1 (Adjacency.mem_names_of_mem_row hrow)
    obtain ⟨d, hd, rfl, -, x, hx, y, hy, hedge⟩ := (mem_row_condensation_iff hc).1 hrow
    rw [mem_of_acyclic hacyclic hc] at hx
    rw [mem_of_acyclic hacyclic hd] at hy
    exact hx ▸ hy ▸ hedge
  · intro hedge
    obtain ⟨c, hc, rfl⟩ := (exists_leader_eq_iff hacyclic).2 hedge.source_mem
    obtain ⟨d, hd, rfl⟩ := (exists_leader_eq_iff hacyclic).2 hedge.target_mem
    exact (mem_row_condensation_iff hc).2 ⟨d, hd, rfl, fun heq => hedge.ne (by rw [heq]),
      _, leader_mem hc, _, leader_mem hd, hedge⟩

theorem releaseOrder_condensation_of_acyclic (hacyclic : g.Acyclic) :
    Adjacency.releaseOrder (g.condensation g.components) = Adjacency.releaseOrder g.toMap := by
  refine (Adjacency.releaseOrder_leastFirst _).unique (Adjacency.releaseOrder_leastFirst _)
    fun done id => ?_
  have hnames : id ∈ NameTable.names (g.condensation g.components) ↔
      id ∈ NameTable.names g.toMap := by
    rw [mem_names_condensation_iff, exists_leader_eq_iff hacyclic, names_toMap]
  have hrow : ∀ dep, dep ∈ Adjacency.row (g.condensation g.components) id ↔
      dep ∈ Adjacency.row g.toMap id := fun dep => by
    rw [mem_row_condensation_of_acyclic hacyclic, row_toMap, Edge]
  constructor
  · rintro ⟨hmem, hfresh, hreleased⟩
    exact ⟨hnames.1 hmem, hfresh, fun dep hdep => hreleased dep ((hrow dep).2 hdep)⟩
  · rintro ⟨hmem, hfresh, hreleased⟩
    exact ⟨hnames.2 hmem, hfresh, fun dep hdep => hreleased dep ((hrow dep).1 hdep)⟩

theorem groupOf_of_acyclic (hacyclic : g.Acyclic) (hc : c ∈ g.components) :
    g.groupOf c = ⟨[c.leader], .empty⟩ := by
  have hinner : EmissionGroup.inner g [] c.leader = [] :=
    List.eq_nil_iff_forall_not_mem.2 fun v hv => by simpa using EmissionGroup.mem_inner_iff.1 hv
  have harrange : EmissionGroup.arrange g [c.leader] = [c.leader] := by
    simp [EmissionGroup.arrange]
  rw [groupOf, names_of_acyclic hacyclic hc]
  simp only [EmissionGroup.ofMembers, harrange, EmissionGroup.forwardOf, hinner]
  rfl

end Acyclic

/-- **Of the groups whose outer dependencies have come out, the one with the
least member comes next.**  There is a group for each component.  Without
cycles the groups are the single nodes, without forward references, in the
order of their creation. -/
theorem emissionOrder_takes_least_ready (g : DependencyGraph) :
    g.emissionOrder.Perm (g.components.map g.groupOf) ∧
      (∀ before group after, g.emissionOrder = before ++ group :: after →
        g.OuterReleased before group ∧
          ∃ first ∈ group.members, ∀ other ∈ after, g.OuterReleased before other →
            ∀ v ∈ other.members, first < v) ∧
      (g.Acyclic →
        (∀ group ∈ g.emissionOrder, ∃ u, group = ⟨[u], .empty⟩) ∧
          g.creationOrder = .ok g.emissionSequence) := by
  obtain ⟨released, hperm, hleaders, horder⟩ := g.exists_released_components
  refine ⟨horder ▸ hperm.map _, fun before group after hsplit => ⟨?_, ?_⟩, fun hacyclic => ?_⟩
  · intro u hu v hedge
    by_cases hv : v ∈ group.members
    · exact Or.inl hv
    · exact Or.inr (emissionOrder_dependencies_first hsplit hu hedge hv)
  · exact exists_member_lt_of_outerReleased hsplit
  · have hgroup : ∀ c ∈ released, g.groupOf c = ⟨[c.leader], .empty⟩ := fun c hc =>
      groupOf_of_acyclic hacyclic (hperm.mem_iff.1 hc)
    constructor
    · intro group hmem
      rw [horder, List.mem_map] at hmem
      obtain ⟨c, hc, rfl⟩ := hmem
      exact ⟨c.leader, hgroup c hc⟩
    · rw [creationOrder_of_acyclic hacyclic, ← releaseOrder_condensation_of_acyclic hacyclic,
        ← hleaders, emissionSequence, horder, List.flatMap_map, List.map_eq_flatMap]
      refine congrArg Except.ok (List.flatMap_congr fun c hc => ?_)
      exact (congrArg EmissionGroup.members (hgroup c hc)).symm

end DependencyGraph
end CloudTemplate
