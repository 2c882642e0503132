import CloudTemplate.Graph.Reach
import CloudTemplate.Proofs.Graph.Components

/-!
# What is found by exploring a graph

The exploration from a node keeps the set of the nodes that it has found and a
queue of those whose dependencies it has not looked at yet.  The start is in the
queue at first, but it is found only if a cycle leads back to it.

A step keeps the three facts of `Explored`, and it takes one off the number of
pending nodes and nodes still to be found (`Explored.step`,
`length_newTargets_add`).  So with one step for each node and one for the start
the queue is emptied, and then what was found is everything that a path with at
least one edge leads to (`Explored.mem_explore_iff`).

Main statement: the transitive dependencies of a node are such paths' ends, and
they tell the cycles and the components of the depth-first search
(`transitiveDependencies_reached`).
-/

namespace CloudTemplate
namespace DependencyGraph

/-- A directed path with at least one edge. -/
def LeadsTo (g : DependencyGraph) : String → String → Prop :=
  Relation.TransGen g.Edge

/-- The dependencies of a node that were not found before. -/
def newTargets (g : DependencyGraph) (found : NameSet) (id : String) : List String :=
  (g.dependencies id).filter fun target => !found.contains target

/-- What the exploration from a node knows. -/
structure Explored (g : DependencyGraph) (start : String) (pending : List String)
    (found : NameSet) : Prop where
  /-- Only what the start leads to is found. -/
  reached : ∀ v ∈ found.names, g.LeadsTo start v
  /-- Nothing but the start is pending without being found. -/
  known : ∀ u ∈ pending, u = start ∨ u ∈ found.names
  /-- The dependencies of a node are found when it is no longer pending. -/
  followed : ∀ u, u = start ∨ u ∈ found.names → u ∉ pending →
    ∀ v, g.Edge u v → v ∈ found.names

variable {g : DependencyGraph} {start u v : String} {pending : List String} {found : NameSet}

section Paths

theorem LeadsTo.mem_ids (h : g.LeadsTo u v) : u ∈ g.ids ∧ v ∈ g.ids := by
  obtain ⟨_, hfirst, -⟩ := Relation.TransGen.head'_iff.1 h
  obtain ⟨_, -, hlast⟩ := Relation.TransGen.tail'_iff.1 h
  exact ⟨hfirst.source_mem, hlast.target_mem⟩

theorem reaches_iff_leadsTo_of_ne (hne : u ≠ v) : g.Reaches u v ↔ g.LeadsTo u v := by
  refine Relation.reflTransGen_iff_eq_or_transGen.trans ⟨fun h => ?_, Or.inr⟩
  exact h.resolve_left hne.symm

end Paths

section Step

theorem mem_newTargets_iff : v ∈ g.newTargets found u ↔ g.Edge u v ∧ v ∉ found.names := by
  simp [newTargets, Edge, ← NameTable.contains_iff]

theorem explore_cons (g : DependencyGraph) (steps : Nat) (id : String) (pending : List String)
    (found : NameSet) :
    g.explore (steps + 1) (id :: pending) found =
      g.explore steps (pending ++ g.newTargets found id)
        ((g.newTargets found id).foldl NameSet.add found) :=
  rfl

/-- A start is found only by a way back to it. -/
theorem explored_start (g : DependencyGraph) (start : String) :
    g.Explored start [start] .empty where
  reached := by simp
  known := by simp
  followed := by simp

/-- Taking a node from the queue adds what is new among its dependencies to the
queue and to what is found. -/
theorem Explored.step (h : g.Explored start (u :: pending) found) :
    g.Explored start (pending ++ g.newTargets found u)
      ((g.newTargets found u).foldl NameSet.add found) where
  reached := by
    intro v hv
    rcases NameSet.mem_names_foldl_add.1 hv with hnew | hfound
    · have hedge := (mem_newTargets_iff.1 hnew).1
      rcases h.known u (List.mem_cons_self ..) with heq | hu
      · exact .single (heq ▸ hedge)
      · exact (h.reached u hu).tail hedge
    · exact h.reached v hfound
  known := by
    intro v hv
    rw [NameSet.mem_names_foldl_add]
    rcases List.mem_append.1 hv with hpending | hnew
    · exact (h.known v (List.mem_cons_of_mem _ hpending)).imp_right Or.inr
    · exact Or.inr (Or.inl hnew)
  followed := by
    intro w hw hdone v hedge
    rw [List.mem_append, not_or] at hdone
    rw [NameSet.mem_names_foldl_add] at hw ⊢
    by_cases hfound : v ∈ found.names
    · exact Or.inr hfound
    -- A dependency that was not found before belongs to the node that was taken.
    · by_cases heq : w = u
      · exact Or.inl (mem_newTargets_iff.2 ⟨heq ▸ hedge, hfound⟩)
      · have hold := hw.imp_right fun hmem => hmem.resolve_left hdone.2
        have hleft : w ∉ u :: pending := by simp [heq, hdone.1]
        exact Or.inr (h.followed w hold hleft v hedge)

/-- What becomes pending was still to be found. -/
theorem size_newTargets (g : DependencyGraph) (found : NameSet) (id : String) :
    ((g.newTargets found id).foldl NameSet.add found).size =
      found.size + (g.newTargets found id).length :=
  NameSet.size_foldl_add ((g.nodup_dependencies id).filter _)
    fun _ hname => (mem_newTargets_iff.1 hname).2

end Step

section Run

theorem Explored.size_le (h : g.Explored start pending found) : found.size ≤ g.nodeCount := by
  have hsub : found.names ⊆ g.ids := fun v hv => (h.reached v hv).mem_ids.2
  have hle := (List.subperm_of_subset found.nodup_names hsub).length_le
  rwa [ids, NameTable.length_names, NameTable.length_names] at hle

/-- With an empty queue everything is found. -/
theorem Explored.mem_iff (h : g.Explored start [] found) :
    v ∈ found.names ↔ g.LeadsTo start v := by
  refine ⟨h.reached v, fun hpath => ?_⟩
  induction hpath with
  | single hedge => exact h.followed start (Or.inl rfl) (List.not_mem_nil) _ hedge
  | tail _ hedge ih => exact h.followed _ (Or.inr ih) (List.not_mem_nil) _ hedge

/-- The steps suffice as long as there is one for each pending node and for each
node that is still to be found. -/
theorem Explored.mem_explore_iff {steps : Nat} (h : g.Explored start pending found)
    (hsteps : pending.length + g.nodeCount ≤ steps + found.size) :
    v ∈ (g.explore steps pending found).names ↔ g.LeadsTo start v := by
  induction steps generalizing pending found with
  | zero =>
      have hle := h.size_le
      have hnil : pending = [] := List.length_eq_zero_iff.1 (by omega)
      subst hnil
      exact h.mem_iff
  | succ steps ih =>
      cases pending with
      | nil => exact h.mem_iff
      | cons u pending =>
          have hsize := g.size_newTargets found u
          rw [explore_cons]
          refine ih h.step ?_
          rw [List.length_cons] at hsteps
          rw [List.length_append]
          omega

theorem mem_transitiveDependencies_iff :
    v ∈ (g.transitiveDependencies u).names ↔ g.LeadsTo u v := by
  refine (g.explored_start u).mem_explore_iff ?_
  rw [List.length_singleton]
  omega

end Run

/-- **The transitive dependencies of a node are the nodes that a path with at
least one edge leads to.**  A name without a node has none.  A node is among its
own just when the search for components finds it on a cycle, and two nodes are
in one component just when each is among those of the other. -/
theorem transitiveDependencies_reached (g : DependencyGraph) :
    (∀ id v, v ∈ (g.transitiveDependencies id).names ↔ Relation.TransGen g.Edge id v) ∧
    (∀ id, id ∉ g.ids → g.transitiveDependencies id = .empty) ∧
    (∀ id, id ∈ (g.transitiveDependencies id).names ↔
      ∃ c ∈ g.cycles, Component.contains c id = true) ∧
    ∀ u v, u ≠ v →
      ((∃ c ∈ g.components, Component.contains c u = true ∧ Component.contains c v = true) ↔
        v ∈ (g.transitiveDependencies u).names ∧ u ∈ (g.transitiveDependencies v).names) := by
  simp only [Component.contains_iff, mem_transitiveDependencies_iff]
  refine ⟨fun _ _ => Iff.rfl, fun id hid => ?_, fun id => exists_mem_cycles_iff.symm, ?_⟩
  · refine NameSet.ext_names fun v => ?_
    rw [mem_transitiveDependencies_iff]
    exact iff_of_false (fun h => hid h.mem_ids.1) (by simp)
  · intro u v hne
    rw [← reaches_iff_leadsTo_of_ne hne, ← reaches_iff_leadsTo_of_ne hne.symm]
    constructor
    · rintro ⟨c, hc, hu, hv⟩
      exact (mem_component_iff hc hu).1 hv
    · intro h
      have hu : u ∈ g.ids := ((reaches_iff_leadsTo_of_ne hne).1 h.1).mem_ids.1
      exact (exists_component_iff_connected hu).2 h

end DependencyGraph
end CloudTemplate
