import CloudTemplate.Proofs.Graph.Components
import CloudTemplate.Proofs.Graph.Release
import CloudTemplate.Proofs.Sorting

/-!
# The order of creation

A graph without cycles has orders in which every node stands after all that it
depends on.  The creation order is the least of them, compared name by name;
a graph with cycles is refused with the classes of strongly connected nodes
that the cycles lie in (`creationOrder_least_or_cycles`).
-/

namespace CloudTemplate
namespace DependencyGraph

/-- Every name stands after all that it depends on. -/
def DependenciesFirst (g : DependencyGraph) (order : List String) : Prop :=
  ∀ before id after, order = before ++ id :: after →
    ∀ dep ∈ g.dependencies id, dep ∈ before

/-- An order in which all nodes can be created. -/
structure IsCreationOrder (g : DependencyGraph) (order : List String) : Prop where
  perm : order.Perm g.ids
  dependenciesFirst : g.DependenciesFirst order

/-- A class of strongly connected nodes with more than one member, ascending. -/
structure IsCycleClass (g : DependencyGraph) (members : List String) : Prop where
  ascending : members.Pairwise (· < ·)
  two_le_length : 2 ≤ members.length
  connected : ∀ u ∈ members, ∀ v, v ∈ members ↔ g.Connected u v

variable {g : DependencyGraph} {order other members : List String} {id : String}

section Orders

theorem names_toMap (g : DependencyGraph) : NameTable.names g.toMap = g.ids :=
  NameTable.names_map ..

theorem row_toMap (g : DependencyGraph) : Adjacency.row g.toMap = g.dependencies := by
  funext id
  unfold Adjacency.row toMap dependencies
  rw [NameTable.get?_map]
  cases g.rows.get? id with
  | none => rfl
  | some row => exact NameTable.names_map ..

theorem acyclic_toMap (g : DependencyGraph) : Adjacency.Acyclic g.toMap ↔ g.Acyclic := by
  unfold Adjacency.Acyclic
  rw [row_toMap]
  rfl

theorem grounded_toMap (g : DependencyGraph) : Adjacency.Grounded g.toMap := by
  intro id dep hdep
  rw [row_toMap] at hdep
  rw [names_toMap]
  exact Edge.target_mem hdep

theorem IsCreationOrder.inOrder
    (h : g.IsCreationOrder order) : Adjacency.InOrder g.toMap [] order := by
  rw [Adjacency.inOrder_iff]
  intro before id after hsplit
  have hnodup : order.Nodup := h.perm.nodup_iff.2 g.nodup_ids
  rw [hsplit, List.nodup_append] at hnodup
  refine ⟨?_, ?_, ?_⟩
  · rw [names_toMap]
    exact h.perm.mem_iff.1 (by simp [hsplit])
  · intro hmem
    exact hnodup.2.2 id (by simpa using hmem) id (List.mem_cons_self ..) rfl
  · intro dep hdep
    rw [row_toMap] at hdep
    simpa using h.dependenciesFirst before id after hsplit dep hdep

theorem dependenciesFirst_of_inOrder
    (h : Adjacency.InOrder g.toMap [] order) : g.DependenciesFirst order := by
  intro before id after hsplit dep hdep
  have hready := Adjacency.inOrder_iff.1 h before id after hsplit
  rw [← row_toMap] at hdep
  simpa using hready.released dep hdep

/-- The release order of an acyclic graph is its least creation order. -/
theorem releaseOrder_least (hacyclic : g.Acyclic) :
    g.IsCreationOrder (Adjacency.releaseOrder g.toMap) ∧
      ∀ other, g.IsCreationOrder other →
        Adjacency.releaseOrder g.toMap = other ∨
          List.Lex (· < ·) (Adjacency.releaseOrder g.toMap) other := by
  have hleast := Adjacency.releaseOrder_leastFirst g.toMap
  have hperm := hleast.perm_of_acyclic ((acyclic_toMap g).2 hacyclic) (grounded_toMap g)
  rw [names_toMap] at hperm
  refine ⟨⟨hperm, dependenciesFirst_of_inOrder hleast.inOrder⟩, fun other hother => ?_⟩
  exact hleast.le_of_inOrder hother.inOrder (hperm.trans hother.perm.symm).length_eq

end Orders

section Cycles

/-- Every member of a class is on a cycle through another one. -/
theorem IsCycleClass.onCycle
    (h : g.IsCycleClass members) (hid : id ∈ members) : g.OnCycle id := by
  rw [onCycle_iff_exists_connected]
  by_contra hnone
  have hsub : members ⊆ [id] := by
    intro v hv
    by_contra hne
    exact hnone ⟨v, by simpa using hne, (h.connected id hid v).1 hv⟩
  have hnodup : members.Nodup := h.ascending.imp fun hlt => ne_of_lt hlt
  have hle := (List.subperm_of_subset hnodup hsub).length_le
  have htwo := h.two_le_length
  simp only [List.length_singleton] at hle
  omega

theorem mem_cycles_names_iff :
    members ∈ g.cycles.map NameTable.names ↔ g.IsCycleClass members := by
  rw [List.mem_map]
  constructor
  · rintro ⟨c, hc, rfl⟩
    obtain ⟨hmem, hsize⟩ := mem_cycles_iff.1 hc
    refine ⟨c.pairwise_names, ?_, fun u hu v => mem_component_iff hmem hu⟩
    have hpos := List.length_pos_iff.2 (components_nonempty hmem)
    rw [NameTable.length_names] at hpos ⊢
    omega
  · intro h
    have hpos : 0 < members.length := by
      have htwo := h.two_le_length
      omega
    obtain ⟨u, hu⟩ := List.exists_mem_of_length_pos hpos
    obtain ⟨c, hc, huc⟩ := exists_mem_cycles_iff.2 (h.onCycle hu)
    have hmem := (mem_cycles_iff.1 hc).1
    refine ⟨c, hc, ?_⟩
    refine List.Perm.eq_of_pairwise (fun a b _ _ hab hba => absurd hba (lt_asymm hab))
      c.pairwise_names h.ascending ?_
    refine (List.perm_ext_iff_of_nodup c.nodup_names
      (h.ascending.imp fun hlt => ne_of_lt hlt)).2 fun v => ?_
    exact (mem_component_iff hmem huc).trans (h.connected u hu v).symm

theorem cycles_disjoint (g : DependencyGraph) :
    g.cycles.Pairwise fun a b => ∀ id ∈ a.names, id ∉ b.names := by
  have hsymm : ∀ {a b : Component}, (∀ id ∈ a.names, id ∉ b.names) →
      ∀ id ∈ b.names, id ∉ a.names :=
    fun h id hb ha => h id ha hb
  exact ((List.mergeSort_perm _ _).pairwise_iff hsymm).2 (g.components_disjoint.filter _)

/-- The classes come in the order of their members, each once. -/
theorem pairwise_cycles_names (g : DependencyGraph) :
    (g.cycles.map NameTable.names).Pairwise (List.Lex (· < ·)) := by
  have hsorted : g.cycles.Pairwise fun a b =>
      decide (a.names.headD "" ≤ b.names.headD "") = true :=
    List.pairwise_mergeSort
      (fun a b c hab hbc => by
        simp only [decide_eq_true_eq] at hab hbc ⊢
        exact le_trans hab hbc)
      (fun a b => by simpa using le_total _ _) _
  rw [List.pairwise_map]
  refine (hsorted.and g.cycles_disjoint).imp_of_mem ?_
  rintro a b ha hb ⟨hle, hdisjoint⟩
  rw [decide_eq_true_eq] at hle
  obtain ⟨first, rest, hfirst⟩ :=
    List.exists_cons_of_ne_nil (components_nonempty (mem_cycles_iff.1 ha).1)
  obtain ⟨first', rest', hfirst'⟩ :=
    List.exists_cons_of_ne_nil (components_nonempty (mem_cycles_iff.1 hb).1)
  rw [hfirst, hfirst'] at hle hdisjoint ⊢
  refine List.Lex.rel (lt_of_le_of_ne hle fun heq => ?_)
  exact hdisjoint first (List.mem_cons_self ..) (by simp [show first = first' from heq])

theorem mem_cycleMembers_iff :
    id ∈ (Error.circularDependency (g.cycles.map NameTable.names)).cycleMembers ↔
      g.OnCycle id := by
  rw [← exists_mem_cycles_iff]
  simp [Error.cycleMembers]

theorem pairwise_cycleMembers (g : DependencyGraph) :
    (Error.circularDependency (g.cycles.map NameTable.names)).cycleMembers.Pairwise
      (· < ·) := by
  show ((g.cycles.map NameTable.names).flatten.mergeSort).Pairwise (· < ·)
  have hnodup : (g.cycles.map NameTable.names).flatten.Nodup := by
    rw [List.nodup_flatten]
    refine ⟨fun members hmem => ?_, ?_⟩
    · obtain ⟨c, -, rfl⟩ := List.mem_map.1 hmem
      exact c.nodup_names
    · rw [List.pairwise_map]
      exact g.cycles_disjoint.imp fun hdisjoint => hdisjoint
  exact pairwise_lt_mergeSort hnodup

end Cycles

section CreationOrder

theorem creationOrder_of_acyclic (h : g.Acyclic) :
    g.creationOrder = .ok (Adjacency.releaseOrder g.toMap) := by
  have hnil := cycles_eq_nil_iff.2 h
  simp [creationOrder, ensureAcyclic, hnil, bind, Except.bind, pure, Except.pure]

theorem creationOrder_of_not_acyclic (h : ¬ g.Acyclic) :
    g.creationOrder = .error (.circularDependency (g.cycles.map NameTable.names)) := by
  have hcons := mt cycles_eq_nil_iff.1 h
  unfold creationOrder ensureAcyclic
  cases hcycles : g.cycles with
  | nil => exact absurd hcycles hcons
  | cons c rest => rfl

/-- **The creation order is the least order of creation, and only cycles stand
against it.**  The deletion order is its reverse.  The error of a graph with
cycles lists the classes that they lie in, in the order of their members. -/
theorem creationOrder_least_or_cycles (g : DependencyGraph) :
    match g.creationOrder with
    | .ok order =>
        g.Acyclic ∧ g.IsCreationOrder order ∧
          (∀ other, g.IsCreationOrder other →
            order = other ∨ List.Lex (· < ·) order other) ∧
          g.deletionOrder = .ok order.reverse
    | .error e =>
        ¬ g.Acyclic ∧ g.deletionOrder = .error e ∧
          (∃ cycles : List (List String),
            e = .circularDependency cycles ∧
            (∀ members, members ∈ cycles ↔ g.IsCycleClass members) ∧
            cycles.Pairwise (List.Lex (· < ·))) ∧
          (∀ id, id ∈ e.cycleMembers ↔ g.OnCycle id) ∧
          e.cycleMembers.Pairwise (· < ·) := by
  by_cases h : g.Acyclic
  · have hleast := releaseOrder_least h
    rw [deletionOrder, creationOrder_of_acyclic h]
    exact ⟨h, hleast.1, hleast.2, rfl⟩
  · rw [deletionOrder, creationOrder_of_not_acyclic h]
    exact ⟨h, rfl, ⟨_, rfl, fun _ => mem_cycles_names_iff, g.pairwise_cycles_names⟩,
      fun _ => mem_cycleMembers_iff, g.pairwise_cycleMembers⟩

end CreationOrder

end DependencyGraph
end CloudTemplate
