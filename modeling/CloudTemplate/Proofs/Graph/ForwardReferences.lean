import Mathlib.Data.List.Sort
import CloudTemplate.Proofs.Graph.Emission

/-!
# How many forward references an order leaves

Of an order of a group, only the number of dependencies of each member counts
towards two bounds: a member has no more forward references than dependencies
in the group and than later members, and no fewer than the dependencies that do
not fit in front of it.

Main statement: the order of emission has the least bounds of all orders of the
group, so another order saves no more forward references than the bounds are
apart (`EmissionGroup.forwardCount_le_of_perm`).  It need not be the order with
the fewest forward references (`EmissionGroup.not_forall_forwardCount_le`).
-/

namespace CloudTemplate
namespace EmissionGroup

variable {g : DependencyGraph} {members order : List String} {u v : String}

/-- The number of references of members to later ones. -/
def forwardTotal (g : DependencyGraph) : List String → Nat
  | [] => 0
  | id :: later => (inner g later id).length + forwardTotal g later

/-- On how many others of the group each member depends. -/
def counts (g : DependencyGraph) (members : List String) : List Nat :=
  members.map fun id => (inner g members id).length

/-- The sum of what each count costs with the number of counts behind it. -/
def weigh (cost : Nat → Nat → Nat) : List Nat → Nat
  | [] => 0
  | count :: later => cost count later.length + weigh cost later

/-- Each member refers forward with all its dependencies, or to all later
members. -/
def mostForward (counts : List Nat) : Nat :=
  weigh min counts

/-- Each member refers forward only with the dependencies that do not fit in
front of it. -/
def leastForward (counts : List Nat) : Nat :=
  weigh (fun count after => count - (counts.length - 1 - after)) counts

section Exchange

variable {cost : Nat → Nat → Nat}

theorem weigh_orderedInsert_le
    (hexchange : ∀ a b after, a ≤ b →
      cost a (after + 1) + cost b after ≤ cost b (after + 1) + cost a after)
    (count : Nat) (list : List Nat) :
    weigh cost (list.orderedInsert (· ≤ ·) count) ≤ weigh cost (count :: list) := by
  induction list with
  | nil => exact Nat.le_refl _
  | cons head rest ih =>
      rw [List.orderedInsert_cons]
      split
      · exact Nat.le_refl _
      · next hgreater =>
          have hlength : (rest.orderedInsert (· ≤ ·) count).length = rest.length + 1 :=
            List.orderedInsert_length ..
          have hswap := hexchange head count rest.length (by omega)
          simp only [weigh, List.length_cons, hlength] at ih ⊢
          omega

/-- If a pair costs less with the smaller count first, the sorted counts cost
least. -/
theorem weigh_le_of_perm
    (hexchange : ∀ a b after, a ≤ b →
      cost a (after + 1) + cost b after ≤ cost b (after + 1) + cost a after)
    {sorted list : List Nat} (hsorted : sorted.Pairwise (· ≤ ·)) (hperm : list.Perm sorted) :
    weigh cost sorted ≤ weigh cost list := by
  -- No insertion raises the cost, and the counts can be sorted in one way only.
  have hsort : weigh cost (list.insertionSort (· ≤ ·)) ≤ weigh cost list := by
    clear hperm
    induction list with
    | nil => exact Nat.le_refl _
    | cons head rest ih =>
        refine (weigh_orderedInsert_le hexchange head (rest.insertionSort (· ≤ ·))).trans ?_
        rw [weigh, weigh, List.length_insertionSort]
        omega
  have heq : list.insertionSort (· ≤ ·) = sorted :=
    ((List.perm_insertionSort _ list).trans hperm).eq_of_pairwise
      (fun a b _ _ => le_antisymm) (List.pairwise_insertionSort _ list) hsorted
  exact heq ▸ hsort

theorem mostForward_le_of_perm
    {sorted list : List Nat} (hsorted : sorted.Pairwise (· ≤ ·)) (hperm : list.Perm sorted) :
    mostForward sorted ≤ mostForward list :=
  weigh_le_of_perm (fun a b after hle => by omega) hsorted hperm

theorem leastForward_le_of_perm
    {sorted list : List Nat} (hsorted : sorted.Pairwise (· ≤ ·)) (hperm : list.Perm sorted) :
    leastForward sorted ≤ leastForward list := by
  unfold leastForward
  rw [hperm.length_eq]
  exact weigh_le_of_perm (fun a b after hle => by omega) hsorted hperm

end Exchange

section Bounds

theorem nodup_inner (g : DependencyGraph) (members : List String) (id : String) :
    (inner g members id).Nodup :=
  (g.nodup_dependencies id).filter _

theorem length_inner_le (g : DependencyGraph) (members : List String) (id : String) :
    (inner g members id).length ≤ members.length :=
  (List.subperm_of_subset (nodup_inner g members id) fun _ hv => (mem_inner_iff.1 hv).2).length_le

/-- What is not in front of a member is behind it. -/
theorem length_inner_split_le (g : DependencyGraph) (before later : List String) (id : String) :
    (inner g (before ++ id :: later) id).length ≤
      (inner g before id).length + (inner g later id).length := by
  rw [← List.length_append]
  refine (List.subperm_of_subset (nodup_inner g _ id) fun v hv => ?_).length_le
  obtain ⟨hedge, hmem⟩ := mem_inner_iff.1 hv
  rw [List.mem_append, mem_inner_iff, mem_inner_iff]
  rcases List.mem_append.1 hmem with hbefore | hlater
  · exact Or.inl ⟨hedge, hbefore⟩
  · exact Or.inr ⟨hedge, (List.mem_cons.1 hlater).resolve_left hedge.ne⟩

theorem forwardTotal_le_mostForward (g : DependencyGraph) (order : List String) :
    forwardTotal g order ≤ mostForward (counts g order) := by
  -- The induction is on the members from a place on, counted in the whole order.
  suffices hlater : ∀ later : List String, later ⊆ order →
      forwardTotal g later ≤ mostForward (later.map fun id => (inner g order id).length) from
    hlater order (List.Subset.refl _)
  intro later hsubset
  induction later with
  | nil => exact Nat.le_refl _
  | cons id rest ih =>
      have hrest := ih (List.subset_of_cons_subset hsubset)
      have hcount : (inner g rest id).length ≤ (inner g order id).length := by
        refine (List.subperm_of_subset (nodup_inner g rest id) fun v hv => ?_).length_le
        obtain ⟨hedge, hmem⟩ := mem_inner_iff.1 hv
        exact mem_inner_iff.2 ⟨hedge, hsubset (List.mem_cons_of_mem _ hmem)⟩
      have hplaces := length_inner_le g rest id
      simp only [forwardTotal, mostForward, List.map_cons, weigh, List.length_map] at hrest ⊢
      omega

theorem leastForward_le_forwardTotal (g : DependencyGraph) (order : List String) :
    leastForward (counts g order) ≤ forwardTotal g order := by
  suffices hlater : ∀ later before : List String, order = before ++ later →
      weigh (fun count after => count - (order.length - 1 - after))
        (later.map fun id => (inner g order id).length) ≤ forwardTotal g later by
    have hall := hlater order [] rfl
    unfold leastForward counts
    rwa [List.length_map]
  intro later
  induction later with
  | nil => exact fun _ _ => Nat.le_refl _
  | cons id rest ih =>
      intro before hsplit
      have hrest := ih (before ++ [id]) (by simp [hsplit])
      have hcount := length_inner_split_le g before rest id
      have hplaces := length_inner_le g before id
      have hlength : order.length = before.length + (rest.length + 1) := by simp [hsplit]
      rw [← hsplit] at hcount
      simp only [forwardTotal, List.map_cons, weigh, List.length_map]
      omega

end Bounds

section Count

theorem sum_size_forwardOf (g : DependencyGraph) (order : List String) :
    ((forwardOf g order).map fun entry => entry.2.size).sum = forwardTotal g order := by
  induction order with
  | nil => rfl
  | cons id later ih =>
      rw [forwardOf, forwardTotal]
      split
      · next hnone => rw [ih, hnone, List.length_nil, Nat.zero_add]
      · rw [List.map_cons, List.sum_cons, ih, NameSet.size_ofList (nodup_inner g later id)]

theorem forwardCount_ofMembers
    (hnodup : members.Nodup) :
    (ofMembers g members).forwardCount = forwardTotal g (ofMembers g members).members := by
  have hnames := (names_forwardOf_sublist g (arrange g members)).nodup
    (nodup_members_ofMembers hnodup)
  have hperm := Entries.sort_perm hnames
  calc (ofMembers g members).forwardCount
      = ((Entries.sort (forwardOf g (arrange g members))).map fun entry => entry.2.size).sum := by
        rw [List.sum_eq_foldl, List.foldl_map]
        exact List.foldl_map ..
    _ = ((forwardOf g (arrange g members)).map fun entry => entry.2.size).sum :=
        (hperm.map _).sum_eq
    _ = forwardTotal g (ofMembers g members).members := sum_size_forwardOf ..

theorem counts_perm (hperm : order.Perm members) : (counts g order).Perm (counts g members) := by
  unfold counts
  simp only [inner_congr hperm]
  exact hperm.map _

theorem pairwise_counts_ofMembers
    (hnodup : members.Nodup) : (counts g (ofMembers g members).members).Pairwise (· ≤ ·) := by
  unfold counts
  rw [List.pairwise_map]
  refine (pairwise_rank_ofMembers hnodup).imp fun hlt => ?_
  rcases Prod.Lex.lt_iff.1 hlt with hcount | ⟨hcount, -⟩
  · exact hcount.le
  · exact hcount.le

/-- **The order of emission has the least bounds on its forward references.**
Counting only how many dependencies each member has in the group, no order of
the members has a smaller least or greatest number of forward references, and
no order has fewer of them by more than these two are apart. -/
theorem forwardCount_le_of_perm
    {group : EmissionGroup} (hgroup : group ∈ g.emissionOrder)
    (hperm : order.Perm group.members) :
    leastForward (counts g group.members) ≤ leastForward (counts g order) ∧
      mostForward (counts g group.members) ≤ mostForward (counts g order) ∧
      leastForward (counts g order) ≤ forwardTotal g order ∧
      forwardTotal g order ≤ mostForward (counts g order) ∧
      group.forwardCount = forwardTotal g group.members ∧
      group.forwardCount ≤ forwardTotal g order +
        (mostForward (counts g group.members) - leastForward (counts g group.members)) := by
  obtain ⟨c, -, rfl⟩ := DependencyGraph.exists_component_of_mem_emissionOrder hgroup
  have hsorted := pairwise_counts_ofMembers (g := g) c.nodup_names
  have hleast := leastForward_le_of_perm hsorted (counts_perm hperm)
  have hmost := mostForward_le_of_perm hsorted (counts_perm hperm)
  have hlower := leastForward_le_forwardTotal g order
  have hcount := forwardCount_ofMembers (g := g) c.nodup_names
  have hupper := forwardTotal_le_mostForward g (ofMembers g c.names).members
  refine ⟨hleast, hmost, hlower, forwardTotal_le_mostForward g order, hcount, ?_⟩
  omega

/-- Three nodes on two cycles. -/
def tangle : DependencyGraph :=
  .ofRows
    (.ofList
      [("A", .ofList [("B", .reference), ("C", .reference)]),
        ("B", .ofList [("C", .reference)]), ("C", .ofList [("A", .reference)])])
    .empty []

/-- Its only group: the node with two dependencies comes last. -/
def tangleGroup : EmissionGroup where
  members := ["B", "C", "A"]
  forward := .ofList [("B", .ofList ["C"]), ("C", .ofList ["A"])]

theorem tangleGroup_mem_emissionOrder : tangleGroup ∈ tangle.emissionOrder := by
  have hreleased : Adjacency.releaseOrder (tangle.condensation tangle.components) = ["A"] := by
    decide +kernel
  have hmembers : (NameTable.ofList
      (tangle.components.map fun c => (c.leader, c.names))).get? "A" = some ["A", "B", "C"] := by
    decide +kernel
  have harranged : arrange tangle ["A", "B", "C"] = ["B", "C", "A"] :=
    arrange_eq (by decide +kernel) (by decide +kernel)
  have hforward : forwardOf tangle ["B", "C", "A"] =
      [("B", .ofList ["C"]), ("C", .ofList ["A"])] := by
    decide +kernel
  simp only [DependencyGraph.emissionOrder, hreleased, List.map_cons, List.map_nil, hmembers,
    Option.getD_some, ofMembers, harranged, hforward]
  exact List.mem_singleton_self tangleGroup

theorem forwardCount_tangleGroup_le :
    tangleGroup ∈ tangle.emissionOrder ∧ ["C", "B", "A"].Perm tangleGroup.members ∧
      tangleGroup.forwardCount ≤ forwardTotal tangle ["C", "B", "A"] + 1 := by
  have hperm : ["C", "B", "A"].Perm tangleGroup.members := by decide +kernel
  have hapart : mostForward (counts tangle tangleGroup.members) -
      leastForward (counts tangle tangleGroup.members) = 1 := by decide +kernel
  have hbounds := forwardCount_le_of_perm tangleGroup_mem_emissionOrder hperm
  rw [hapart] at hbounds
  exact ⟨tangleGroup_mem_emissionOrder, hperm, hbounds.2.2.2.2.2⟩

/-- Another order of the three nodes has one forward reference less. -/
theorem not_forall_forwardCount_le :
    ¬ ∀ (g : DependencyGraph) (group : EmissionGroup) (order : List String),
      group ∈ g.emissionOrder → order.Perm group.members →
        group.forwardCount ≤ forwardTotal g order := by
  intro h
  have hle := h tangle tangleGroup ["C", "B", "A"] tangleGroup_mem_emissionOrder
    (by decide +kernel)
  revert hle
  decide +kernel

end Count

end EmissionGroup
end CloudTemplate
