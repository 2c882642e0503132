import CloudTemplate.Proofs.Template.Record

/-!
# Reading back what was written of a resource

Every resource that is read has normal properties, no explicit dependency
twice, and sorted trees where it holds trees (`Resource.Readable`).  Such a
resource is read back from its tree (`Reading.resource_sort_toTree`).
-/

namespace CloudTemplate

open Outcome

/-- What holds of every resource that is read. -/
structure Resource.Readable (r : Resource) : Prop where
  properties : ∀ name v, r.properties.get? name = some v → v.Normal
  dependsOn : r.dependsOn.Nodup
  metadata : ∀ tree ∈ r.metadata, tree.Sorted
  creationPolicy : ∀ tree ∈ r.creationPolicy, tree.Sorted
  updatePolicy : ∀ tree ∈ r.updatePolicy, tree.Sorted

theorem Resource.readable_ofType (typeName : String) : (Resource.ofType typeName).Readable where
  properties := by simp [Resource.ofType]
  dependsOn := List.nodup_nil
  metadata := by simp [Resource.ofType]
  creationPolicy := by simp [Resource.ofType]
  updatePolicy := by simp [Resource.ofType]

theorem Resource.nodup_withDependency
    {r : Resource} (h : r.dependsOn.Nodup) (target : String) :
    (r.withDependency target).dependsOn.Nodup := by
  unfold Resource.withDependency
  split_ifs with hmem
  · exact h
  · have hnot : target ∉ r.dependsOn := by simpa using hmem
    exact List.nodup_append.2 ⟨h, List.nodup_singleton _, fun a ha b hb => by
      rw [List.mem_singleton.1 hb]
      exact fun heq => hnot (heq ▸ ha)⟩

theorem DeletionPolicy.ofName?_name (policy : DeletionPolicy) :
    DeletionPolicy.ofName? policy.name = some policy := by
  cases policy <;> decide

namespace Reading

variable {path : String} {r r' : Resource} {tree : Tree}

/-- The targets of `DependsOn` change nothing else, and keep the list free of
repetitions. -/
theorem dependencies_go_eq_ok
    {index : Nat} {targets : List Tree} (h : dependencies.go path r index targets = .ok r')
    (hnodup : r.dependsOn.Nodup) :
    ∃ dependsOn, dependsOn.Nodup ∧ r' = { r with dependsOn } := by
  induction targets generalizing r index with
  | nil =>
      cases h
      exact ⟨_, hnodup, rfl⟩
  | cons head rest ih =>
      rw [dependencies.go] at h
      split at h
      · cases h
      · obtain ⟨dependsOn, hgo, heq⟩ := ih h (Resource.nodup_withDependency hnodup _)
        refine ⟨dependsOn, hgo, heq.trans ?_⟩
        unfold Resource.withDependency
        split_ifs <;> rfl

theorem dependencies_eq_ok
    (h : dependencies path r tree = .ok r') (hnodup : r.dependsOn.Nodup) :
    ∃ dependsOn, dependsOn.Nodup ∧ r' = { r with dependsOn } := by
  unfold dependencies at h
  split at h
  · next target =>
    cases h
    refine ⟨_, Resource.nodup_withDependency hnodup target, ?_⟩
    unfold Resource.withDependency
    split_ifs <;> rfl
  · exact dependencies_go_eq_ok h hnodup
  · cases h

/-- Targets without repetitions are added in their order. -/
theorem dependencies_go_strings
    {index : Nat} {targets : List String} (h : (r.dependsOn ++ targets).Nodup) :
    dependencies.go path r index (targets.map .string) =
      .ok { r with dependsOn := r.dependsOn ++ targets } := by
  induction targets generalizing r index with
  | nil =>
      rw [List.append_nil]
      rfl
  | cons head rest ih =>
      have hnot : head ∉ r.dependsOn := fun hmem =>
        (List.nodup_append.1 h).2.2 head hmem head (List.mem_cons_self ..) rfl
      have hadd : r.withDependency head = { r with dependsOn := r.dependsOn ++ [head] } := by
        simp [Resource.withDependency, hnot]
      show dependencies.go path (r.withDependency head) (index + 1) (rest.map .string) = _
      rw [hadd, ih (by simpa using h)]
      simp

theorem policy_name (policy : DeletionPolicy) (path : String) :
    Reading.policy path (.string policy.name) = .ok policy := by
  unfold Reading.policy string
  rw [ok_bind, DeletionPolicy.ofName?_name]
  rfl

theorem resourceAttribute_deletionPolicy (policy : DeletionPolicy) :
    resourceAttribute path r "DeletionPolicy" (.string policy.name) =
      .ok { r with deletionPolicy := some policy } := by
  show (Reading.policy _ _).map _ = _
  rw [policy_name]
  rfl

theorem resourceAttribute_updateReplacePolicy (policy : DeletionPolicy) :
    resourceAttribute path r "UpdateReplacePolicy" (.string policy.name) =
      .ok { r with updateReplacePolicy := some policy } := by
  show (Reading.policy _ _).map _ = _
  rw [policy_name]
  rfl

theorem resourceAttribute_dependsOn
    {targets : List String} (hnone : r.dependsOn = []) (hnodup : targets.Nodup) :
    resourceAttribute path r "DependsOn" (.list (targets.map .string)) =
      .ok { r with dependsOn := targets } := by
  show dependencies.go _ r 0 _ = _
  rw [dependencies_go_strings (by simpa [hnone] using hnodup), hnone]
  rfl

/-- What is written of a table of values is read back. -/
theorem resourceAttribute_properties
    {properties : NameTable Value}
    (h : ∀ name v, properties.get? name = some v → v.Normal) :
    resourceAttribute path r "Properties" (.map (properties.map Value.toTree).entries) =
      .ok { r with properties } := by
  show (do
    let found ← table (fun property => value (below (below path "Properties") property)) _
    return { r with properties := found }) = _
  rw [table_of_written fun name v hv => value_toTree (h name v hv) _]
  rfl

theorem readable_of_resourceAttribute
    {name : String} (hsorted : tree.Sorted) (hr : r.Readable)
    (h : resourceAttribute path r name tree = .ok r') : r'.Readable := by
  unfold resourceAttribute at h
  simp only at h
  split at h
  · obtain ⟨trees, htrees, h⟩ := bind_eq_ok_iff.1 h
    obtain ⟨found, hfound, h⟩ := bind_eq_ok_iff.1 h
    cases h
    refine { hr with properties := fun property v hv => ?_ }
    obtain ⟨item, hitem, hread⟩ := exists_of_table hfound property v hv
    exact normal_of_value (sorted_of_mapping hsorted htrees _ hitem) _ v hread
  · obtain ⟨dependsOn, hnodup, rfl⟩ := dependencies_eq_ok h hr.dependsOn
    exact { hr with dependsOn := hnodup }
  · obtain ⟨text, -, rfl⟩ := map_eq_ok_iff.1 h
    exact { hr with }
  · obtain ⟨found, -, rfl⟩ := map_eq_ok_iff.1 h
    exact { hr with }
  · obtain ⟨found, -, rfl⟩ := map_eq_ok_iff.1 h
    exact { hr with }
  · cases h
    exact { hr with metadata := by simpa using hsorted }
  · cases h
    exact { hr with creationPolicy := by simpa using hsorted }
  · cases h
    exact { hr with updatePolicy := by simpa using hsorted }
  · cases h
    exact hr

theorem readable_of_resource
    {logicalId : String} (hsorted : tree.Sorted) (h : resource logicalId tree = .ok r) :
    r.Readable := by
  unfold resource at h
  simp only at h
  split at h
  · next attributes =>
    split at h
    · cases h
    · split at h
      · cases h
      · obtain ⟨typeName, -, hloop⟩ := bind_eq_ok_iff.1 h
        refine foldlM_invariant Resource.Readable ?_ (Resource.readable_ofType typeName) hloop
        intro s t entry hentry hs hstep
        exact readable_of_resourceAttribute
          ((Tree.sorted_map_iff.1 hsorted).2 entry hentry) hs hstep
  · cases h

end Reading

/-- The fields of a resource in the order of their names. -/
def Resource.fields (r : Resource) : List (String × Option Tree) :=
  [("Condition", r.condition.map .string),
    ("CreationPolicy", r.creationPolicy),
    ("DeletionPolicy", r.deletionPolicy.map fun policy => .string policy.name),
    ("DependsOn",
      if r.dependsOn.isEmpty then none else some (.list (r.dependsOn.map .string))),
    ("Metadata", r.metadata),
    ("Properties", r.properties.toTree? Value.toTree),
    ("Type", some (.string r.typeName)),
    ("UpdatePolicy", r.updatePolicy),
    ("UpdateReplacePolicy",
      r.updateReplacePolicy.map fun policy => .string policy.name)]

theorem Resource.nodup_fields (r : Resource) : (Entries.names r.fields).Nodup := by
  simp [Resource.fields, Entries.names]

theorem Resource.sort_toTree
    {r : Resource} (h : r.Readable) : r.toTree.sort = .map (presentEntries r.fields) := by
  have hdependsOn : ∀ tree ∈ (if r.dependsOn.isEmpty then none
      else some (Tree.list (r.dependsOn.map .string))), tree.Sorted := by
    intro tree htree
    split_ifs at htree
    · cases htree
    · cases htree
      rw [Tree.sorted_list_iff]
      intro item hitem
      obtain ⟨target, -, rfl⟩ := List.mem_map.1 hitem
      trivial
  have hproperties : ∀ tree ∈ r.properties.toTree? Value.toTree, tree.Sorted := by
    intro tree htree
    unfold NameTable.toTree? at htree
    split_ifs at htree
    · cases htree
    · cases htree
      refine Tree.sorted_map_iff.2 ⟨NameTable.ascending _, fun entry hentry => ?_⟩
      obtain ⟨given, hgiven, rfl⟩ := List.mem_map.1 hentry
      exact (h.properties _ _ (NameTable.get?_eq_some_iff.2 hgiven)).sorted_toTree
  unfold Resource.toTree
  rw [sort_map_presentEntries (by simp [Entries.names])]
  simp only [Entries.mapValues, List.map_cons, List.map_nil, map_sort_eq hproperties,
    map_sort_eq hdependsOn, map_sort_eq h.metadata, map_sort_eq h.creationPolicy,
    map_sort_eq h.updatePolicy, Option.map_map]
  simp [Entries.sort, Entries.insert, Resource.fields, Function.comp_def, Tree.sort,
    -String.lt_iff_ltb]

namespace Reading

/-- **A resource is read back from its tree.** -/
theorem resource_sort_toTree
    {r : Resource} (h : r.Readable) (logicalId : String) :
    resource logicalId r.toTree.sort = .ok r := by
  rw [Resource.sort_toTree h]
  have hknown : (Entries.names (presentEntries r.fields)).find?
      (fun name => !resourceAttributes.contains name) = none := by
    rw [List.find?_eq_none]
    intro name hname
    have hmem := (names_presentEntries_sublist r.fields).subset hname
    simp only [Resource.fields, Entries.names, List.map_cons, List.map_nil, List.mem_cons,
      List.not_mem_nil, or_false] at hmem
    rcases hmem with rfl | rfl | rfl | rfl | rfl | rfl | rfl | rfl | rfl <;>
      decide
  have htype : Entries.lookup "Type" (presentEntries r.fields) =
      some (.string r.typeName) := by
    rw [lookup_presentEntries r.nodup_fields]
    rfl
  unfold resource
  simp only [hknown, htype]
  show List.foldlM _ (Resource.ofType r.typeName) (presentEntries r.fields) = _
  unfold Resource.fields
  rw [foldlM_presentEntries_map (fun s condition => { s with condition }) rfl fun _ => rfl,
    foldlM_presentEntries_tree (fun s creationPolicy => { s with creationPolicy })
      rfl fun _ _ => rfl,
    foldlM_presentEntries_map (fun s deletionPolicy => { s with deletionPolicy })
      rfl fun _ => resourceAttribute_deletionPolicy _,
    foldlM_presentEntries_list (fun s dependsOn => { s with dependsOn })
      rfl (resourceAttribute_dependsOn rfl h.dependsOn),
    foldlM_presentEntries_tree (fun s metadata => { s with metadata }) rfl fun _ _ => rfl,
    foldlM_presentEntries_table (fun s properties => { s with properties })
      rfl (resourceAttribute_properties h.properties),
    foldlM_presentEntries_cons id (fun _ => rfl) fun _ _ => rfl,
    foldlM_presentEntries_tree (fun s updatePolicy => { s with updatePolicy })
      rfl fun _ _ => rfl,
    foldlM_presentEntries_map (fun s updateReplacePolicy => { s with updateReplacePolicy })
      rfl fun _ => resourceAttribute_updateReplacePolicy _]
  rfl

end Reading

end CloudTemplate
