import Mathlib.Logic.Basic
import CloudTemplate.Proofs.Graph.Condensation
import CloudTemplate.Proofs.Sorting

/-!
# Groups of emission

A group has the members of a component, those with fewer dependencies in the
group first (`EmissionGroup.rank`).  What a member depends on comes out before
it, or it is one of its forward references.

Main statement: the order of emission has one group for each component, each
after those it depends on, with exactly the forward references that its order
leaves (`DependencyGraph.emissionOrder_sound`).
-/

namespace CloudTemplate

namespace EmissionGroup

variable {g : DependencyGraph} {members order : List String} {u v : String}

/-- What members are ordered by: how many others of the group they depend on,
then their names. -/
def rank (g : DependencyGraph) (members : List String) (id : String) : ℕ ×ₗ String :=
  toLex ((inner g members id).length, id)

section Arrange

theorem rank_injective (h : rank g members u = rank g members v) : u = v :=
  congrArg (fun key => (ofLex key).2) h

theorem mem_inner_iff : v ∈ inner g members u ↔ g.Edge u v ∧ v ∈ members := by
  simp [inner, DependencyGraph.Edge]

/-- Only what the members are counts, not their order. -/
theorem inner_congr (h : order.Perm members) (u : String) :
    inner g order u = inner g members u := by
  refine List.filter_congr fun v _ => ?_
  rw [Bool.eq_iff_iff, List.contains_iff_mem, List.contains_iff_mem, h.mem_iff]

theorem arrange_perm (g : DependencyGraph) (members : List String) :
    (arrange g members).Perm members := by
  unfold arrange
  refine ((List.mergeSort_perm _ _).map Prod.snd).trans ?_
  simp [List.map_map, Function.comp_def]

theorem pairwise_rank_arrange (g : DependencyGraph) (members : List String) :
    (arrange g members).Pairwise fun u v => rank g members u ≤ rank g members v := by
  unfold arrange
  rw [List.pairwise_map]
  refine (pairwise_key_mergeSort (fun entry : ℕ × String => toLex entry) ?_ _).imp_of_mem ?_
  · intro a b
    rw [isLE_then_iff, isLE_compare_iff, Prod.Lex.toLex_le_toLex]
  · intro a b ha hb hle
    simp only [List.mem_mergeSort, List.mem_map] at ha hb
    obtain ⟨u, -, rfl⟩ := ha
    obtain ⟨v, -, rfl⟩ := hb
    exact hle

/-- There is only one order of the members with ascending ranks. -/
theorem arrange_eq
    (hperm : order.Perm members)
    (hordered : order.Pairwise fun u v => rank g members u < rank g members v) :
    arrange g members = order := by
  refine ((arrange_perm g members).trans hperm.symm).eq_of_pairwise ?_
    (pairwise_rank_arrange g members) (hordered.imp le_of_lt)
  intro u v _ _ hle hge
  exact rank_injective (le_antisymm hle hge)

end Arrange

section Forward

theorem names_forwardOf_sublist (g : DependencyGraph) (order : List String) :
    (Entries.names (forwardOf g order)).Sublist order := by
  induction order with
  | nil => exact .slnil
  | cons id later ih =>
      unfold forwardOf
      split
      · exact ih.cons id
      · exact ih.cons_cons id

end Forward

section Groups

theorem mem_members_ofMembers : u ∈ (ofMembers g members).members ↔ u ∈ members :=
  (arrange_perm g members).mem_iff

theorem nodup_members_ofMembers (hnodup : members.Nodup) :
    (ofMembers g members).members.Nodup :=
  (arrange_perm g members).nodup_iff.2 hnodup

/-- No two members have the same rank, so the order is strict. -/
theorem pairwise_rank_ofMembers (hnodup : members.Nodup) :
    (ofMembers g members).members.Pairwise fun u v =>
      rank g (ofMembers g members).members u < rank g (ofMembers g members).members v := by
  have hrank : ∀ u, rank g (arrange g members) u = rank g members u := fun u => by
    rw [rank, inner_congr (arrange_perm g members), rank]
  refine ((pairwise_rank_arrange g members).and (nodup_members_ofMembers hnodup)).imp ?_
  rintro u v ⟨hle, hne⟩
  show rank g (arrange g members) u < rank g (arrange g members) v
  rw [hrank, hrank]
  exact lt_of_le_of_ne hle fun heq => hne (rank_injective heq)

end Groups

end EmissionGroup

namespace DependencyGraph

variable {g : DependencyGraph} {u v : String}

/-- All nodes in the order of their emission. -/
def emissionSequence (g : DependencyGraph) : List String :=
  g.emissionOrder.flatMap EmissionGroup.members

/-- A dependency in another group is in an earlier one. -/
theorem emissionOrder_dependencies_first
    {before after : List EmissionGroup} {group : EmissionGroup}
    (hsplit : g.emissionOrder = before ++ group :: after) (hu : u ∈ group.members)
    (hedge : g.Edge u v) (hv : v ∉ group.members) :
    ∃ earlier ∈ before, v ∈ earlier.members := by
  obtain ⟨released, hperm, hleaders, horder⟩ := g.exists_released_components
  rw [horder, List.map_eq_append_iff] at hsplit
  obtain ⟨front, rest, hreleased, rfl, hrest⟩ := hsplit
  obtain ⟨c, back, rfl, rfl, rfl⟩ := List.map_eq_cons_iff.1 hrest
  obtain ⟨d, hd, hvd⟩ := exists_mem_components_iff.2 hedge.target_mem
  rw [EmissionGroup.mem_members_ofMembers] at hu hv
  have hne : d ≠ c := fun heq => hv (heq ▸ hvd)
  have hearlier := released_before hperm hleaders hreleased hd hne hu hvd hedge
  exact ⟨_, List.mem_map_of_mem hearlier, EmissionGroup.mem_members_ofMembers.2 hvd⟩

theorem exists_component_of_mem_emissionOrder
    {group : EmissionGroup} (hgroup : group ∈ g.emissionOrder) :
    ∃ c ∈ g.components, group = EmissionGroup.ofMembers g c.names := by
  obtain ⟨released, hperm, -, horder⟩ := g.exists_released_components
  rw [horder, List.mem_map] at hgroup
  obtain ⟨c, hc, rfl⟩ := hgroup
  exact ⟨c, hperm.mem_iff.1 hc, rfl⟩

end DependencyGraph
end CloudTemplate
