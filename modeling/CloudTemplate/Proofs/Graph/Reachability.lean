import Mathlib.Logic.Relation
import CloudTemplate.Graph.Basic
import CloudTemplate.Proofs.NameTable

/-!
# Paths in dependency graphs

An edge leads from a node to each node that it depends on.  A path follows
edges, a cycle is a path with at least one edge that ends where it starts.

Two nodes are strongly connected when there are paths both ways.  A graph has
no edge from a node to itself, so a node is on a cycle exactly when it is
strongly connected to some other node (`onCycle_iff_exists_connected`).
-/

namespace CloudTemplate
namespace DependencyGraph

/-- A node depends directly on another one. -/
def Edge (g : DependencyGraph) (source target : String) : Prop :=
  target ∈ g.dependencies source

/-- A directed path, possibly without an edge. -/
def Reaches (g : DependencyGraph) : String → String → Prop :=
  Relation.ReflTransGen g.Edge

/-- There are paths both ways. -/
def Connected (g : DependencyGraph) (u v : String) : Prop :=
  g.Reaches u v ∧ g.Reaches v u

/-- A directed path with at least one edge leads from the node to itself. -/
def OnCycle (g : DependencyGraph) (id : String) : Prop :=
  Relation.TransGen g.Edge id id

/-- No node lies on a directed cycle. -/
def Acyclic (g : DependencyGraph) : Prop :=
  ∀ id, ¬ g.OnCycle id

variable {g : DependencyGraph} {u v w : String}

section Edges

theorem dependencies_eq_of_mem
    {row : String × EdgeRow} (hrow : row ∈ g.rows.entries) :
    g.dependencies row.1 = row.2.names := by
  have hget : g.rows.get? row.1 = some row.2 :=
    NameTable.get?_eq_some_iff.2 hrow
  simp [dependencies, hget]

theorem nodup_dependencies (g : DependencyGraph) (id : String) : (g.dependencies id).Nodup := by
  unfold dependencies
  cases g.rows.get? id with
  | none => exact List.nodup_nil
  | some row => exact row.nodup_names

theorem nodup_ids (g : DependencyGraph) : g.ids.Nodup :=
  g.rows.nodup_names

/-- Both ends of an edge are nodes, and they are different. -/
theorem Edge.sound (h : g.Edge u v) :
    u ∈ g.ids ∧ v ∈ g.ids ∧ v ≠ u := by
  unfold Edge dependencies at h
  cases hget : g.rows.get? u with
  | none => simp [hget] at h
  | some row =>
      simp only [hget] at h
      obtain ⟨kind, hedge⟩ := Entries.mem_names_iff.1 h
      have hrow := NameTable.get?_eq_some_iff.1 hget
      obtain ⟨hnode, hne⟩ := g.sound _ hrow _ hedge
      exact ⟨Entries.mem_names_iff.2 ⟨row, hrow⟩, hnode, hne⟩

theorem Edge.source_mem (h : g.Edge u v) : u ∈ g.ids := h.sound.1

theorem Edge.target_mem (h : g.Edge u v) : v ∈ g.ids := h.sound.2.1

theorem Edge.ne (h : g.Edge u v) : v ≠ u := h.sound.2.2

theorem mem_dependents_iff :
    u ∈ g.dependents v ↔ g.Edge u v := by
  unfold dependents
  rw [Entries.mem_names_iff]
  constructor
  · rintro ⟨row, hrow⟩
    obtain ⟨hmem, hcontains⟩ := List.mem_filter.1 hrow
    show v ∈ g.dependencies u
    rw [dependencies_eq_of_mem hmem]
    exact NameTable.contains_iff.1 hcontains
  · intro h
    obtain ⟨row, hrow⟩ := Entries.mem_names_iff.1 h.source_mem
    have hnames : v ∈ row.names := by
      have := dependencies_eq_of_mem hrow
      rw [← this]
      exact h
    exact ⟨row, List.mem_filter.2 ⟨hrow, NameTable.contains_iff.2 hnames⟩⟩

end Edges

section Paths

theorem Reaches.refl (u : String) : g.Reaches u u :=
  Relation.ReflTransGen.refl

theorem Reaches.trans (huv : g.Reaches u v) (hvw : g.Reaches v w) :
    g.Reaches u w :=
  Relation.ReflTransGen.trans huv hvw

theorem Reaches.tail (huv : g.Reaches u v) (hvw : g.Edge v w) :
    g.Reaches u w :=
  Relation.ReflTransGen.tail huv hvw

theorem Edge.reaches (h : g.Edge u v) : g.Reaches u v :=
  Relation.ReflTransGen.single h

/-- A path from a node stays among the nodes. -/
theorem Reaches.mem_ids (huv : g.Reaches u v) (hu : u ∈ g.ids) :
    v ∈ g.ids := by
  induction huv with
  | refl => exact hu
  | tail _ hedge _ => exact hedge.target_mem

theorem Connected.symm (h : g.Connected u v) : g.Connected v u :=
  ⟨h.2, h.1⟩

theorem Connected.trans (huv : g.Connected u v) (hvw : g.Connected v w) :
    g.Connected u w :=
  ⟨huv.1.trans hvw.1, hvw.2.trans huv.2⟩

theorem OnCycle.mem_ids (h : g.OnCycle u) : u ∈ g.ids := by
  obtain ⟨_, hedge, _⟩ := Relation.TransGen.head'_iff.1 h
  exact hedge.source_mem

/-- As no node depends on itself, a cycle has a second node. -/
theorem onCycle_iff_exists_connected :
    g.OnCycle u ↔ ∃ v, v ≠ u ∧ g.Connected u v := by
  constructor
  · intro h
    obtain ⟨v, hedge, hback⟩ := Relation.TransGen.head'_iff.1 h
    exact ⟨v, hedge.ne, hedge.reaches, hback⟩
  · rintro ⟨v, hne, huv, hvu⟩
    rcases Relation.reflTransGen_iff_eq_or_transGen.1 huv with heq | hpath
    · exact absurd heq hne
    · exact Relation.TransGen.trans_left hpath hvu

end Paths

end DependencyGraph
end CloudTemplate
