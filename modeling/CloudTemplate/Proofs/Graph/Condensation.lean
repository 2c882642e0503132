import Mathlib.Data.List.Perm.Basic
import CloudTemplate.Graph.Emission
import CloudTemplate.Proofs.Graph.Components
import CloudTemplate.Proofs.Graph.Release

/-!
# The graph of the components

The first member of a component stands for it (`Component.leader`), and no two
components share theirs.  One component waits for another one when an edge
leads from a member to a member (`mem_row_condensation_iff`).  A cycle of
components would connect them, so there is none (`acyclic_condensation`), and
all components are released (`exists_released_components`).
-/

namespace CloudTemplate
namespace DependencyGraph

variable {g : DependencyGraph} {c d : Component} {u v : String}

section Leaders

theorem leader_mem (hc : c ∈ g.components) : c.leader ∈ c.names := by
  obtain ⟨first, rest, hnames⟩ := List.exists_cons_of_ne_nil (components_nonempty hc)
  rw [Component.leader, hnames]
  exact List.mem_cons_self ..

theorem component_unique
    (hc : c ∈ g.components) (hd : d ∈ g.components) (huc : u ∈ c.names) (hud : u ∈ d.names) :
    c = d := by
  obtain ⟨i, hi⟩ := List.mem_iff_getElem?.1 hc
  obtain ⟨j, hj⟩ := List.mem_iff_getElem?.1 hd
  have hindex := components_index_unique hi hj huc hud
  rw [hindex, hj] at hi
  exact (Option.some.inj hi).symm

theorem leader_injective
    (hc : c ∈ g.components) (hd : d ∈ g.components) (h : c.leader = d.leader) : c = d :=
  component_unique hc hd (leader_mem hc) (h ▸ leader_mem hd)

theorem nodup_components (g : DependencyGraph) : g.components.Nodup := by
  refine g.components_disjoint.imp_of_mem ?_
  rintro a b ha - hdisjoint rfl
  exact hdisjoint a.leader (leader_mem ha) (leader_mem ha)

theorem nodup_leaders (g : DependencyGraph) : (g.components.map Component.leader).Nodup :=
  g.nodup_components.map_on fun _ hc _ hd => leader_injective hc hd

theorem nodup_flatMap_names (g : DependencyGraph) :
    (g.components.flatMap NameTable.names).Nodup := by
  rw [List.nodup_flatMap]
  refine ⟨fun c _ => c.nodup_names, g.components_disjoint.imp fun hdisjoint => ?_⟩
  exact fun id ha hb => hdisjoint id ha hb

theorem get?_leaders_iff :
    (leaders g.components).get? u = some v ↔
      ∃ c ∈ g.components, u ∈ c.names ∧ c.leader = v := by
  have hnodup : (Entries.names (g.components.flatMap fun c =>
      c.names.map fun member => (member, c.leader))).Nodup := by
    have hnames : Entries.names (g.components.flatMap fun c =>
        c.names.map fun member => (member, c.leader)) =
        g.components.flatMap NameTable.names := by
      simp [Entries.names, List.map_flatMap, Function.comp_def]
    rw [hnames]
    exact g.nodup_flatMap_names
  unfold leaders
  rw [NameTable.get?_ofList_eq_some_iff hnodup]
  simp [List.mem_flatMap]

end Leaders

section Condensation

/-- Components by their first members, with what a function gives for each. -/
theorem get?_ofList_components
    {α : Type} (f : Component → α) (hc : c ∈ g.components) :
    (NameTable.ofList (g.components.map fun c => (c.leader, f c))).get? c.leader =
      some (f c) := by
  have hnodup : (Entries.names (g.components.map fun c => (c.leader, f c))).Nodup := by
    simpa [Entries.names, Function.comp_def] using g.nodup_leaders
  rw [NameTable.get?_ofList_eq_some_iff hnodup]
  exact List.mem_map_of_mem hc

theorem mem_names_condensation_iff :
    u ∈ NameTable.names (g.condensation g.components) ↔ ∃ c ∈ g.components, c.leader = u := by
  unfold condensation
  rw [NameTable.mem_names_ofList]
  simp [Entries.names, Function.comp_def]

/-- A component waits for the other components that its edges lead to. -/
theorem mem_row_condensation_iff
    (hc : c ∈ g.components) :
    v ∈ Adjacency.row (g.condensation g.components) c.leader ↔
      ∃ d ∈ g.components, d.leader = v ∧ d ≠ c ∧
        ∃ x ∈ c.names, ∃ y ∈ d.names, g.Edge x y := by
  unfold Adjacency.row condensation
  rw [get?_ofList_components _ hc, Option.map_some, Option.getD_some]
  unfold outerDependencies
  simp only [NameSet.mem_names_ofList, List.mem_filterMap, List.mem_flatMap,
    Option.filter_eq_some_iff, get?_leaders_iff, bne_iff_ne]
  constructor
  · rintro ⟨y, ⟨x, hx, hedge⟩, ⟨d, hd, hy, rfl⟩, hne⟩
    exact ⟨d, hd, rfl, fun heq => hne (by rw [heq]), x, hx, y, hy, hedge⟩
  · rintro ⟨d, hd, rfl, hne, x, hx, y, hy, hedge⟩
    exact ⟨y, ⟨x, hx, hedge⟩, ⟨d, hd, hy, rfl⟩, fun heq => hne (leader_injective hd hc heq)⟩

theorem grounded_condensation (g : DependencyGraph) :
    Adjacency.Grounded (g.condensation g.components) := by
  intro u v hrow
  obtain ⟨c, hc, rfl⟩ := mem_names_condensation_iff.1 (Adjacency.mem_names_of_mem_row hrow)
  obtain ⟨d, hd, hv, -⟩ := (mem_row_condensation_iff hc).1 hrow
  exact mem_names_condensation_iff.2 ⟨d, hd, hv⟩

theorem reaches_of_mem_row_condensation
    (h : v ∈ Adjacency.row (g.condensation g.components) u) : g.Reaches u v := by
  obtain ⟨c, hc, rfl⟩ := mem_names_condensation_iff.1 (Adjacency.mem_names_of_mem_row h)
  obtain ⟨d, hd, rfl, -, x, hx, y, hy, hedge⟩ := (mem_row_condensation_iff hc).1 h
  have hstart := ((mem_component_iff hc (leader_mem hc)).1 hx).1
  have hend := ((mem_component_iff hd hy).1 (leader_mem hd)).1
  exact (hstart.tail hedge).trans hend

theorem reaches_of_rows
    (h : Relation.ReflTransGen
      (fun u v => v ∈ Adjacency.row (g.condensation g.components) u) u v) :
    g.Reaches u v := by
  induction h with
  | refl => exact .refl u
  | tail _ hrow ih => exact ih.trans (reaches_of_mem_row_condensation hrow)

/-- The way back from another component would make the two one. -/
theorem acyclic_condensation (g : DependencyGraph) :
    Adjacency.Acyclic (g.condensation g.components) := by
  intro u hcycle
  obtain ⟨v, hrow, hback⟩ := Relation.TransGen.head'_iff.1 hcycle
  obtain ⟨c, hc, rfl⟩ := mem_names_condensation_iff.1 (Adjacency.mem_names_of_mem_row hrow)
  obtain ⟨d, hd, rfl, hne, -⟩ := (mem_row_condensation_iff hc).1 hrow
  have hconnected : g.Connected c.leader d.leader :=
    ⟨reaches_of_mem_row_condensation hrow, reaches_of_rows hback⟩
  have hmem := (mem_component_iff hc (leader_mem hc)).2 hconnected
  exact hne (component_unique hd hc (leader_mem hd) hmem)

theorem perm_releaseOrder_condensation (g : DependencyGraph) :
    (Adjacency.releaseOrder (g.condensation g.components)).Perm
      (g.components.map Component.leader) := by
  have hperm := (Adjacency.releaseOrder_leastFirst (g.condensation g.components)).perm_of_acyclic
    g.acyclic_condensation g.grounded_condensation
  refine hperm.trans ?_
  refine (List.perm_ext_iff_of_nodup (NameTable.nodup_names _) g.nodup_leaders).2 fun u => ?_
  rw [mem_names_condensation_iff, List.mem_map]

/-- The components in the order in which they are released. -/
theorem exists_released_components (g : DependencyGraph) :
    ∃ released : List Component, released.Perm g.components ∧
      released.map Component.leader = Adjacency.releaseOrder (g.condensation g.components) ∧
      g.emissionOrder = released.map fun c => EmissionGroup.ofMembers g c.names := by
  obtain ⟨released, horder, hperm⟩ :=
    (List.eq_map_comp_perm Component.leader).ge _ _ g.perm_releaseOrder_condensation
  refine ⟨released, hperm, horder.symm, ?_⟩
  simp only [emissionOrder, horder, List.map_map]
  refine List.map_congr_left fun c hc => ?_
  have hmembers := get?_ofList_components NameTable.names (hperm.mem_iff.1 hc)
  simp only [Function.comp_apply, hmembers, Option.getD_some]

/-- A component comes after all that its edges lead to. -/
theorem released_before
    {released before after : List Component}
    (hperm : released.Perm g.components)
    (horder : released.map Component.leader =
      Adjacency.releaseOrder (g.condensation g.components))
    (hsplit : released = before ++ c :: after)
    (hd : d ∈ g.components) (hne : d ≠ c) (hu : u ∈ c.names) (hv : v ∈ d.names)
    (hedge : g.Edge u v) : d ∈ before := by
  have hc : c ∈ g.components := hperm.mem_iff.1 (by simp [hsplit])
  have hinOrder := (Adjacency.releaseOrder_leastFirst (g.condensation g.components)).inOrder
  rw [← horder, hsplit, List.map_append, List.map_cons, Adjacency.inOrder_iff] at hinOrder
  have hready := hinOrder _ _ _ rfl
  have hrow := (mem_row_condensation_iff hc).2 ⟨d, hd, rfl, hne, u, hu, v, hv, hedge⟩
  have hmem := hready.released _ hrow
  simp only [List.append_nil, List.mem_reverse, List.mem_map] at hmem
  obtain ⟨d', hd', hleader⟩ := hmem
  have heq := leader_injective (hperm.mem_iff.1 (by simp [hsplit, hd'])) hd hleader
  exact heq ▸ hd'

end Condensation

end DependencyGraph
end CloudTemplate
