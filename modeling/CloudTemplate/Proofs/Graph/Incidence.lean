import Mathlib.Combinatorics.Enumerative.DoubleCounting
import Mathlib.Data.Prod.Lex
import CloudTemplate.Proofs.Graph.Reachability

/-!
# The edges of a graph from both ends

A graph keeps the edges in the rows of their sources.  Listed one after the
other they ascend by source and target, so no two of them have the same ends
(`pairwise_edges`), and the list has what a look-up finds (`mem_edges_iff`).

The edges may be counted in the list, by their sources, or by their targets
(`length_edges`, `edgeCount_eq_sum`, `edgeCount_eq_sum_dependents`).  The edges
that leave some nodes are listed without their kinds (`edgesFrom`).
-/

namespace CloudTemplate
namespace DependencyGraph

variable {g : DependencyGraph} {u v : String} {kind : EdgeKind}

section Order

theorem mem_dependencies_iff_edgeKind? :
    v ∈ g.dependencies u ↔ ∃ kind, g.edgeKind? u v = some kind := by
  rw [dependencies, edgeKind?]
  cases g.rows.get? u with
  | none => simp
  | some row => exact NameTable.mem_names_iff_get?

theorem mem_edges_iff : (u, v, kind) ∈ g.edges ↔ g.edgeKind? u v = some kind := by
  rw [edges, List.mem_flatMap, edgeKind?, Option.bind_eq_some_iff]
  simp only [NameTable.get?_eq_some_iff, Prod.exists, List.mem_map, Prod.mk.injEq]
  constructor
  · rintro ⟨_, row, hrow, _, _, hedge, rfl, rfl, rfl⟩
    exact ⟨row, hrow, hedge⟩
  · rintro ⟨row, hrow, hedge⟩
    exact ⟨u, row, hrow, v, kind, hedge, rfl, rfl, rfl⟩

theorem pairwise_edges (g : DependencyGraph) :
    g.edges.Pairwise fun e f => toLex (e.1, e.2.1) < toLex (f.1, f.2.1) := by
  rw [edges, List.pairwise_flatMap]
  refine ⟨fun row _ => ?_, g.rows.ascending.imp fun hlt e he f hf => ?_⟩
  · rw [List.pairwise_map]
    refine List.Pairwise.imp (fun {e f} hlt => ?_) row.2.ascending
    exact Prod.Lex.toLex_lt_toLex.2 (Or.inr ⟨rfl, hlt⟩)
  · obtain ⟨_, -, rfl⟩ := List.mem_map.1 he
    obtain ⟨_, -, rfl⟩ := List.mem_map.1 hf
    exact Prod.Lex.toLex_lt_toLex.2 (Or.inl hlt)

theorem nodup_edges (g : DependencyGraph) : g.edges.Nodup :=
  g.pairwise_edges.imp fun hlt heq => hlt.ne (by rw [heq])

theorem pairwise_dependencies (g : DependencyGraph) (id : String) :
    (g.dependencies id).Pairwise (· < ·) := by
  rw [dependencies]
  cases g.rows.get? id with
  | none => exact List.Pairwise.nil
  | some row => exact row.pairwise_names

theorem pairwise_dependents (g : DependencyGraph) (id : String) :
    (g.dependents id).Pairwise (· < ·) :=
  (g.rows.ascending.filter _).names

end Order

section Count

theorem edgeCount_eq_sum (g : DependencyGraph) :
    g.edgeCount = (g.ids.map fun id => (g.dependencies id).length).sum := by
  have hrows : (g.ids.map fun id => (g.dependencies id).length) =
      g.rows.values.map NameTable.size := by
    rw [ids, NameTable.names, Entries.names, NameTable.values, List.map_map, List.map_map]
    refine List.map_congr_left fun row hrow => ?_
    simp only [Function.comp_apply, dependencies_eq_of_mem hrow, NameTable.length_names]
  rw [hrows, List.sum_eq_foldl, List.foldl_map]
  rfl

theorem length_edges (g : DependencyGraph) : g.edges.length = g.edgeCount := by
  rw [edgeCount_eq_sum, edges, List.length_flatMap, ids, NameTable.names, Entries.names,
    List.map_map]
  refine congrArg List.sum (List.map_congr_left fun row hrow => ?_)
  simp only [Function.comp_apply, dependencies_eq_of_mem hrow, List.length_map,
    NameTable.length_names, NameTable.size]

/-- Every edge is counted once at its source and once at its target. -/
theorem edgeCount_eq_sum_dependents (g : DependencyGraph) :
    g.edgeCount = (g.ids.map fun id => (g.dependents id).length).sum := by
  classical
  have hdependencies : ∀ u, (g.dependencies u).length =
      (Finset.bipartiteAbove g.Edge g.ids.toFinset u).card := by
    intro u
    rw [← List.toFinset_card_of_nodup (g.nodup_dependencies u)]
    refine congrArg Finset.card (Finset.ext fun v => ?_)
    rw [List.mem_toFinset, Finset.mem_bipartiteAbove, List.mem_toFinset]
    exact ⟨fun h => ⟨Edge.target_mem h, h⟩, And.right⟩
  have hdependents : ∀ v, (g.dependents v).length =
      (Finset.bipartiteBelow g.Edge g.ids.toFinset v).card := by
    intro v
    rw [← List.toFinset_card_of_nodup ((g.pairwise_dependents v).imp fun hlt => hlt.ne)]
    refine congrArg Finset.card (Finset.ext fun u => ?_)
    rw [List.mem_toFinset, Finset.mem_bipartiteBelow, List.mem_toFinset, mem_dependents_iff]
    exact ⟨fun h => ⟨h.source_mem, h⟩, And.right⟩
  rw [edgeCount_eq_sum, ← List.sum_toFinset _ g.nodup_ids, ← List.sum_toFinset _ g.nodup_ids]
  simp only [hdependencies, hdependents]
  exact Finset.sum_card_bipartiteAbove_eq_sum_card_bipartiteBelow g.Edge

end Count

section Sources

/-- The edges that leave the given nodes. -/
def edgesFrom (g : DependencyGraph) (ids : List String) : List (String × String) :=
  ids.flatMap fun id => (g.dependencies id).map fun target => (id, target)

theorem mem_edgesFrom_iff {ids : List String} :
    (u, v) ∈ g.edgesFrom ids ↔ u ∈ ids ∧ g.Edge u v := by
  simp [edgesFrom, Edge]

theorem nodup_edgesFrom {ids : List String} (hnodup : ids.Nodup) : (g.edgesFrom ids).Nodup := by
  refine List.nodup_flatMap.2 ⟨fun id _ => ?_, hnodup.imp fun hne => ?_⟩
  · exact (g.nodup_dependencies id).map fun _ _ heq => (Prod.mk.inj heq).2
  · rintro link hlink hlink'
    obtain ⟨_, -, rfl⟩ := List.mem_map.1 hlink
    obtain ⟨_, -, heq⟩ := List.mem_map.1 hlink'
    exact hne (Prod.mk.inj heq).1.symm

/-- The edges that leave any node are all edges, in the same order. -/
theorem edgesFrom_ids (g : DependencyGraph) :
    g.edgesFrom g.ids = g.edges.map fun edge => (edge.1, edge.2.1) := by
  rw [edgesFrom, ids, NameTable.names, Entries.names, List.flatMap_map, edges, List.map_flatMap]
  refine List.flatMap_congr fun row hrow => ?_
  rw [dependencies_eq_of_mem hrow, NameTable.names, Entries.names, List.map_map, List.map_map]
  rfl

theorem length_edgesFrom_le {ids : List String} (hnodup : ids.Nodup) :
    (g.edgesFrom ids).length ≤ g.edgeCount := by
  have hsub : g.edgesFrom ids ⊆ g.edges.map fun edge => (edge.1, edge.2.1) := by
    rintro ⟨u, v⟩ hlink
    obtain ⟨kind, hkind⟩ := mem_dependencies_iff_edgeKind?.1 (mem_edgesFrom_iff.1 hlink).2
    exact List.mem_map.2 ⟨(u, v, kind), mem_edges_iff.2 hkind, rfl⟩
  have hle := (List.subperm_of_subset (nodup_edgesFrom hnodup) hsub).length_le
  rwa [List.length_map, length_edges] at hle

end Sources

end DependencyGraph
end CloudTemplate
