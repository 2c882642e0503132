import CloudTemplate.Proofs.Graph.SearchRun

/-!
# The components are the classes of strongly connected nodes

What the depth-first search finds: a partition of the nodes into the classes
of strongly connected nodes, each class listed after those that its edges lead
to (`components_partition_by_connectedness`).

A component with one member is no cycle, as no node depends on itself, so the
components with more members hold exactly the nodes on cycles
(`exists_mem_cycles_iff`).
-/

namespace CloudTemplate

/-- Halving finds what ascending names hold. -/
theorem bisect_iff
    {id : String} {names : List String} (hnames : names.Pairwise (· < ·)) :
    bisect id names = true ↔ id ∈ names := by
  induction hlength : names.length using Nat.strong_induction_on
    generalizing names with
  | _ n ih =>
      have hsplit := List.take_append_drop (names.length / 2) names
      have hnames' := hnames
      rw [← hsplit, List.pairwise_append] at hnames'
      obtain ⟨htake, hdrop, hcross⟩ := hnames'
      rw [bisect]
      split
      · next hnil =>
        have hzero := congrArg List.length hnil
        simp only [List.length_drop, List.length_nil] at hzero
        have hempty : names = [] := List.length_eq_zero_iff.1 (by omega)
        simp [hempty]
      · next middle above hcons =>
        have hmem : id ∈ names ↔
            id ∈ names.take (names.length / 2) ∨ id = middle ∨ id ∈ above := by
          conv_lhs => rw [← hsplit, hcons]
          simp
        have hcount := congrArg List.length hcons
        simp only [List.length_drop, List.length_cons] at hcount
        rw [hcons] at hdrop hcross
        obtain ⟨habove, hrest⟩ := List.pairwise_cons.1 hdrop
        rw [hmem]
        by_cases heq : id = middle
        · simp [heq]
        rw [if_neg heq]
        by_cases hlt : id < middle
        · rw [if_pos hlt, ih _ (by rw [List.length_take]; omega) htake rfl]
          have hnot : id ∉ above := fun h => lt_asymm hlt (habove id h)
          simp [heq, hnot]
        · rw [if_neg hlt, ih _ (by omega) hrest rfl]
          have hnot : id ∉ names.take (names.length / 2) := fun h =>
            hlt (hcross id h middle (List.mem_cons_self ..))
          simp [heq, hnot]

theorem Component.contains_iff
    {c : Component} {id : String} : Component.contains c id = true ↔ id ∈ c.names :=
  bisect_iff c.pairwise_names

namespace DependencyGraph

variable {g : DependencyGraph} {c : Component} {u v : String}

section Partition

theorem exists_mem_components_iff :
    (∃ c ∈ g.components, u ∈ c.names) ↔ u ∈ g.ids := by
  have h := (Search.visit_all g).2 u
  unfold Search.Closed at h
  simpa [components] using h

theorem components_nonempty (hc : c ∈ g.components) : c.names ≠ [] :=
  (Search.visit_all g).1.nonempty c (by simpa [components] using hc)

/-- A component is the class of each of its members. -/
theorem mem_component_iff
    (hc : c ∈ g.components) (hu : u ∈ c.names) :
    v ∈ c.names ↔ g.Connected u v :=
  (Search.visit_all g).1.connected c (by simpa [components] using hc) u hu v

theorem components_disjoint (g : DependencyGraph) :
    g.components.Pairwise fun a b => ∀ id ∈ a.names, id ∉ b.names := by
  unfold components
  rw [List.pairwise_reverse]
  exact (Search.visit_all g).1.disjoint

/-- Edges lead from a component to itself or to an earlier one. -/
theorem components_ordered (g : DependencyGraph) :
    g.components.Pairwise fun a b =>
      ∀ u ∈ a.names, ∀ v ∈ b.names, ¬ g.Edge u v := by
  unfold components
  rw [List.pairwise_reverse]
  exact (Search.visit_all g).1.ordered

theorem exists_component_iff_connected
    (hu : u ∈ g.ids) :
    (∃ c ∈ g.components, u ∈ c.names ∧ v ∈ c.names) ↔ g.Connected u v := by
  constructor
  · rintro ⟨c, hc, huc, hvc⟩
    exact (mem_component_iff hc huc).1 hvc
  · intro h
    obtain ⟨c, hc, huc⟩ := exists_mem_components_iff.2 hu
    exact ⟨c, hc, huc, (mem_component_iff hc huc).2 h⟩

theorem components_index_unique
    {i j : Nat} {a b : Component}
    (hi : g.components[i]? = some a) (hj : g.components[j]? = some b)
    (ha : u ∈ a.names) (hb : u ∈ b.names) : i = j := by
  obtain ⟨hilt, hi⟩ := List.getElem?_eq_some_iff.1 hi
  obtain ⟨hjlt, hj⟩ := List.getElem?_eq_some_iff.1 hj
  have hdisjoint := List.pairwise_iff_getElem.1 g.components_disjoint
  rcases Nat.lt_trichotomy i j with hlt | heq | hlt
  · have h := hdisjoint i j hilt hjlt hlt
    rw [hi, hj] at h
    exact absurd hb (h u ha)
  · exact heq
  · have h := hdisjoint j i hjlt hilt hlt
    rw [hi, hj] at h
    exact absurd ha (h u hb)

/-- **The components partition the nodes by connectedness.**  No component is
empty, members ascend (so that halving finds them), every node is in exactly
one component, two nodes share one exactly when there are paths both ways, and
an edge to another component leads to an earlier one. -/
theorem components_partition_by_connectedness (g : DependencyGraph) :
    (∀ c ∈ g.components,
      c.names ≠ [] ∧ c.names.Pairwise (· < ·) ∧
        ∀ id, Component.contains c id = true ↔ id ∈ c.names) ∧
    (∀ id, id ∈ g.ids ↔ ∃ c ∈ g.components, id ∈ c.names) ∧
    (∀ id ∈ g.ids, ∃! i : Nat, ∃ c : Component,
      g.components[i]? = some c ∧ id ∈ c.names) ∧
    (∀ u ∈ g.ids, ∀ v ∈ g.ids,
      (∃ c ∈ g.components, u ∈ c.names ∧ v ∈ c.names) ↔
        g.Reaches u v ∧ g.Reaches v u) ∧
    (∀ (i j : Nat) (x y : Component),
      g.components[i]? = some x → g.components[j]? = some y → i ≠ j →
      ∀ u ∈ x.names, ∀ v ∈ y.names, g.Edge u v → j < i) := by
  refine ⟨fun c hc => ?_, fun id => exists_mem_components_iff.symm, ?_, ?_, ?_⟩
  · exact ⟨components_nonempty hc, c.pairwise_names, fun id => Component.contains_iff⟩
  · intro id hid
    obtain ⟨c, hc, hmem⟩ := exists_mem_components_iff.2 hid
    obtain ⟨i, hi⟩ := List.mem_iff_getElem?.1 hc
    refine ⟨i, ⟨c, hi, hmem⟩, ?_⟩
    rintro j ⟨d, hj, hmem'⟩
    exact components_index_unique hj hi hmem' hmem
  · intro u hu v _
    exact exists_component_iff_connected hu
  · intro i j x y hi hj hne u hu v hv hedge
    rcases Nat.lt_or_gt_of_ne hne with hlt | hlt
    · obtain ⟨hilt, hi⟩ := List.getElem?_eq_some_iff.1 hi
      obtain ⟨hjlt, hj⟩ := List.getElem?_eq_some_iff.1 hj
      have h := List.pairwise_iff_getElem.1 g.components_ordered i j hilt hjlt hlt
      rw [hi, hj] at h
      exact absurd hedge (h u hu v hv)
    · exact hlt

end Partition

section Cycles

theorem mem_cycles_iff :
    c ∈ g.cycles ↔ c ∈ g.components ∧ c.size ≠ 1 := by
  simp [cycles]

/-- A component has one member exactly when its members are on no cycle. -/
theorem size_ne_one_iff
    (hc : c ∈ g.components) (hu : u ∈ c.names) :
    c.size ≠ 1 ↔ g.OnCycle u := by
  rw [onCycle_iff_exists_connected, ← NameTable.length_names]
  constructor
  · intro hsize
    by_contra hnone
    have hall : ∀ v ∈ c.names, v = u := by
      intro v hv
      by_contra hne
      exact hnone ⟨v, hne, (mem_component_iff hc hu).1 hv⟩
    have hsub : c.names ⊆ [u] := fun v hv => by simp [hall v hv]
    have hle := (List.subperm_of_subset c.nodup_names hsub).length_le
    have hpos := List.length_pos_of_mem hu
    simp only [List.length_singleton] at hle
    omega
  · rintro ⟨v, hne, hconnected⟩ hsize
    obtain ⟨w, hw⟩ := List.length_eq_one_iff.1 hsize
    have hv := (mem_component_iff hc hu).2 hconnected
    rw [hw, List.mem_singleton] at hu hv
    exact hne (hv.trans hu.symm)

theorem exists_mem_cycles_iff :
    (∃ c ∈ g.cycles, u ∈ c.names) ↔ g.OnCycle u := by
  constructor
  · rintro ⟨c, hc, hu⟩
    obtain ⟨hmem, hsize⟩ := mem_cycles_iff.1 hc
    exact (size_ne_one_iff hmem hu).1 hsize
  · intro h
    obtain ⟨c, hc, hu⟩ := exists_mem_components_iff.2 h.mem_ids
    exact ⟨c, mem_cycles_iff.2 ⟨hc, (size_ne_one_iff hc hu).2 h⟩, hu⟩

theorem cycles_eq_nil_iff : g.cycles = [] ↔ g.Acyclic := by
  constructor
  · intro hnil id hcycle
    obtain ⟨c, hc, -⟩ := exists_mem_cycles_iff.2 hcycle
    simp [hnil] at hc
  · intro hacyclic
    by_contra hne
    obtain ⟨c, hc⟩ := List.exists_mem_of_ne_nil _ hne
    obtain ⟨u, hu⟩ := List.exists_mem_of_ne_nil _
      (components_nonempty (mem_cycles_iff.1 hc).1)
    exact hacyclic u (exists_mem_cycles_iff.1 ⟨c, hc, hu⟩)

end Cycles

end DependencyGraph
end CloudTemplate
