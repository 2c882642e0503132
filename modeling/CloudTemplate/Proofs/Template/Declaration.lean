import CloudTemplate.Proofs.Template.Record

/-!
# Reading back parameters, mappings and outputs

For each kind of declaration: the invariant of what is read (`Readable`), and
the statement that a declaration with the invariant is read back from its tree.

The loose fields of parameters (numbers and flags that may be written as texts)
are read into one form only, which is the form that is written.
-/

namespace CloudTemplate

open Outcome

section Parameters

/-- What holds of every parameter that is read: a default is never null. -/
structure Parameter.Readable (p : Parameter) : Prop where
  default : ∀ tree ∈ p.default, tree ≠ .null ∧ tree.Sorted
  allowedValues : ∀ tree ∈ p.allowedValues, tree.Sorted

theorem Parameter.readable_ofType (typeName : String) :
    (Parameter.ofType typeName).Readable where
  default := by simp [Parameter.ofType]
  allowedValues := by simp [Parameter.ofType]

/-- The fields of a parameter in the order of their names. -/
def Parameter.fields (p : Parameter) : List (String × Option Tree) :=
  [("AllowedPattern", p.allowedPattern.map .string),
    ("AllowedValues", if p.allowedValues.isEmpty then none else some (.list p.allowedValues)),
    ("ConstraintDescription", p.constraintDescription.map .string),
    ("Default", p.default),
    ("Description", p.description.map .string),
    ("MaxLength", p.maxLength.map .number),
    ("MaxValue", p.maxValue.map .number),
    ("MinLength", p.minLength.map .number),
    ("MinValue", p.minValue.map .number),
    ("NoEcho", if p.noEcho then some (.bool true) else none),
    ("Type", some (.string p.typeName))]

theorem Parameter.sort_toTree
    {p : Parameter} (h : p.Readable) : p.toTree.sort = .map (presentEntries p.fields) := by
  have hvalues : ∀ tree ∈ (if p.allowedValues.isEmpty then none
      else some (Tree.list p.allowedValues)), tree.Sorted := by
    intro tree htree
    split_ifs at htree
    · cases htree
    · cases htree
      exact Tree.sorted_list_iff.2 h.allowedValues
  have hecho : (if p.noEcho then some (Tree.bool true) else none).map Tree.sort =
      if p.noEcho then some (Tree.bool true) else none := by
    split_ifs <;> rfl
  unfold Parameter.toTree
  rw [sort_map_presentEntries (by simp [Entries.names])]
  simp only [Entries.mapValues, List.map_cons, List.map_nil, map_sort_eq hvalues,
    map_sort_eq fun tree htree => (h.default tree htree).2, hecho, Option.map_map]
  simp [Entries.sort, Entries.insert, Parameter.fields, Function.comp_def, Tree.sort,
    -String.lt_iff_ltb]

namespace Reading

variable {p p' : Parameter}

theorem readable_of_parameterField
    {name : String} {tree : Tree} (hsorted : tree.Sorted) (hp : p.Readable)
    (h : parameterField p name tree = .ok p') : p'.Readable := by
  unfold parameterField at h
  split at h
  · obtain ⟨_, -, rfl⟩ := map_eq_ok_iff.1 h
    exact { hp with }
  · obtain ⟨_, -, rfl⟩ := map_eq_ok_iff.1 h
    exact { hp with }
  · split at h
    · cases h
      exact { hp with default := by simp }
    · next hnull =>
      cases h
      refine { hp with default := fun tree' htree => ?_ }
      cases htree
      exact ⟨hnull, hsorted⟩
  · split at h
    · cases h
      exact { hp with allowedValues := Tree.sorted_list_iff.1 hsorted }
    · cases h
  · obtain ⟨_, -, rfl⟩ := map_eq_ok_iff.1 h
    exact { hp with }
  · obtain ⟨_, -, rfl⟩ := map_eq_ok_iff.1 h
    exact { hp with }
  · obtain ⟨_, -, rfl⟩ := map_eq_ok_iff.1 h
    exact { hp with }
  · obtain ⟨_, -, rfl⟩ := map_eq_ok_iff.1 h
    exact { hp with }
  · obtain ⟨_, -, rfl⟩ := map_eq_ok_iff.1 h
    exact { hp with }
  · obtain ⟨_, -, rfl⟩ := map_eq_ok_iff.1 h
    exact { hp with }
  · obtain ⟨_, -, rfl⟩ := map_eq_ok_iff.1 h
    exact { hp with }
  · cases h

theorem readable_of_parameter
    {logicalId : String} {tree : Tree} (hsorted : tree.Sorted)
    (h : parameter logicalId tree = .ok p) : p.Readable := by
  unfold parameter at h
  simp only at h
  split at h
  · rw [mapError_eq_ok_iff] at h
    refine foldlM_invariant Parameter.Readable ?_ (Parameter.readable_ofType _) h
    intro s t entry hentry hs hstep
    exact readable_of_parameterField
      ((Tree.sorted_map_iff.1 hsorted).2 entry hentry) hs hstep
  · cases h

/-- **A parameter is read back from its tree.** -/
theorem parameter_sort_toTree
    (h : p.Readable) (logicalId : String) : parameter logicalId p.toTree.sort = .ok p := by
  rw [Parameter.sort_toTree h]
  unfold parameter
  simp only [mapError_eq_ok_iff]
  unfold Parameter.fields
  rw [foldlM_presentEntries_map (fun s allowedPattern => { s with allowedPattern })
      rfl fun _ => rfl,
    foldlM_presentEntries_list (fun s allowedValues => { s with allowedValues }) rfl rfl,
    foldlM_presentEntries_map (fun s constraintDescription => { s with constraintDescription })
      rfl fun _ => rfl,
    foldlM_presentEntries_tree (fun s default => { s with default }) rfl ?_,
    foldlM_presentEntries_map (fun s description => { s with description }) rfl fun _ => rfl,
    foldlM_presentEntries_map (fun s maxLength => { s with maxLength }) rfl fun _ => rfl,
    foldlM_presentEntries_map (fun s maxValue => { s with maxValue }) rfl fun _ => rfl,
    foldlM_presentEntries_map (fun s minLength => { s with minLength }) rfl fun _ => rfl,
    foldlM_presentEntries_map (fun s minValue => { s with minValue }) rfl fun _ => rfl,
    foldlM_presentEntries_cons (fun s => { s with noEcho := p.noEcho }) ?_ ?_,
    foldlM_presentEntries_cons (fun s => { s with typeName := p.typeName }) ?_ ?_]
  · rfl
  · intro hnone
    cases hnone
  · intro tree hsome
    cases hsome
    rfl
  · intro hnone
    split_ifs at hnone with hecho
    rw [Bool.not_eq_true] at hecho
    dsimp only
    rw [hecho]
    rfl
  · intro tree hsome
    split_ifs at hsome with hecho
    cases hsome
    dsimp only
    rw [hecho]
    rfl
  · intro tree hsome
    have hnull := (h.default tree hsome).1
    dsimp only
    cases tree with
    | null => exact absurd rfl hnull
    | _ => rfl

end Reading

end Parameters

section Mappings

/-- What holds of every mapping that is read. -/
def Mapping.Readable (m : Mapping) : Prop :=
  ∀ first second, m.get? first = some second →
    ∀ name tree, second.get? name = some tree → tree.Sorted

theorem Mapping.sort_toTree
    {m : Mapping} (h : m.Readable) : m.toTree.sort = m.toTree := by
  refine Tree.Sorted.sort_eq (Tree.sorted_map_iff.2 ⟨NameTable.ascending _, ?_⟩)
  intro entry hentry
  obtain ⟨given, hgiven, rfl⟩ := List.mem_map.1 hentry
  refine Tree.sorted_map_iff.2 ⟨given.2.ascending, fun inner hinner => ?_⟩
  exact h given.1 given.2 (NameTable.get?_eq_some_iff.2 hgiven) inner.1 inner.2
    (NameTable.get?_eq_some_iff.2 hinner)

namespace Reading

variable {m : Mapping}

theorem readable_of_twoLevels
    {name : String} {tree : Tree} (hsorted : tree.Sorted)
    (h : twoLevels name tree = .ok m) : m.Readable := by
  unfold twoLevels at h
  obtain ⟨trees, htrees, h⟩ := bind_eq_ok_iff.1 h
  intro first second hsecond key item hitem
  obtain ⟨inner, hinner, hread⟩ := exists_of_table h first second hsecond
  obtain ⟨entries, hentries, heq⟩ := bind_eq_ok_iff.1 hread
  cases heq
  have hmem : (key, item) ∈ entries := by
    refine Entries.mem_of_mem_sort ?_
    exact NameTable.get?_eq_some_iff.1 hitem
  have hsorted' : inner.Sorted := sorted_of_mapping hsorted htrees _ hinner
  exact sorted_of_mapping hsorted' hentries _ hmem

/-- **A mapping is read back from its tree.** -/
theorem twoLevels_sort_toTree
    (h : m.Readable) (name : String) : twoLevels name m.toTree.sort = .ok m := by
  rw [Mapping.sort_toTree h]
  show table (fun key inner => (do
    let second ← mapping (below ("Mappings." ++ name) key) inner
    return NameTable.ofList second))
      (m.map fun second => Tree.map second.entries).entries = _
  exact table_of_written fun key second hsecond =>
    congrArg Except.ok second.ofList_entries

end Reading

end Mappings

section Outputs

/-- What holds of every output that is read. -/
structure Output.Readable (o : Output) : Prop where
  value : o.value.Normal
  exportName : ∀ v ∈ o.exportName, v.Normal

/-- The fields of an output in the order of their names. -/
def Output.fields (o : Output) : List (String × Option Tree) :=
  [("Condition", o.condition.map .string),
    ("Description", o.description.map .string),
    ("Export", o.exportName.map fun name => .single "Name" name.toTree),
    ("Value", some o.value.toTree)]

theorem Output.nodup_fields (o : Output) : (Entries.names o.fields).Nodup := by
  simp [Output.fields, Entries.names]

theorem Output.sort_toTree
    {o : Output} (h : o.Readable) : o.toTree.sort = .map (presentEntries o.fields) := by
  have hexport : (o.exportName.map fun name => Tree.single "Name" name.toTree).map
      Tree.sort = o.exportName.map fun name => Tree.single "Name" name.toTree := by
    refine map_sort_eq fun tree htree => ?_
    obtain ⟨v, hv, rfl⟩ := Option.map_eq_some_iff.1 htree
    exact Tree.sorted_single (h.exportName v hv).sorted_toTree
  have hvalue : o.value.toTree.sort = o.value.toTree := h.value.sorted_toTree.sort_eq
  unfold Output.toTree
  rw [sort_map_presentEntries (by simp [Entries.names])]
  simp only [Entries.mapValues, List.map_cons, List.map_nil, hexport, Option.map_some, hvalue]
  simp [Entries.sort, Entries.insert, Output.fields, Function.comp_def, Tree.sort,
    -String.lt_iff_ltb]

namespace Reading

variable {o o' : Output}

theorem readable_of_outputAttribute
    {path name : String} {tree : Tree} (hsorted : tree.Sorted) (ho : o.Readable)
    (h : outputAttribute path o name tree = .ok o') : o'.Readable := by
  unfold outputAttribute at h
  simp only at h
  split at h
  · cases h
    exact ho
  · obtain ⟨_, -, rfl⟩ := map_eq_ok_iff.1 h
    exact { ho with }
  · obtain ⟨_, -, rfl⟩ := map_eq_ok_iff.1 h
    exact { ho with }
  · obtain ⟨entries, hentries, h⟩ := bind_eq_ok_iff.1 h
    split at h
    · cases h
    · next item hitem =>
      obtain ⟨v, hv, heq⟩ := bind_eq_ok_iff.1 h
      cases heq
      refine { ho with exportName := fun w hw => ?_ }
      cases hw
      exact normal_of_value
        (sorted_of_mapping hsorted hentries _ (Entries.mem_of_lookup hitem)) _ v hv
  · cases h

theorem readable_of_output
    {logicalId : String} {tree : Tree} (hsorted : tree.Sorted)
    (h : output logicalId tree = .ok o) : o.Readable := by
  unfold output at h
  simp only at h
  split at h
  · split at h
    · cases h
    · next item hitem =>
      have hall := (Tree.sorted_map_iff.1 hsorted).2
      obtain ⟨v, hv, hloop⟩ := bind_eq_ok_iff.1 h
      refine foldlM_invariant Output.Readable ?_ ⟨?_, by simp⟩ hloop
      · intro s t entry hentry hs hstep
        exact readable_of_outputAttribute (hall entry hentry) hs hstep
      · exact normal_of_value (hall _ (Entries.mem_of_lookup hitem)) _ v hv
  · cases h

theorem outputAttribute_export
    {path : String} {v : Value} (h : v.Normal) :
    outputAttribute path o "Export" (.single "Name" v.toTree) =
      .ok { o with exportName := some v } := by
  show (value (below (below path "Export") "Name") v.toTree >>= fun exported =>
    .ok { o with exportName := some exported }) = _
  rw [value_toTree h]
  rfl

/-- **An output is read back from its tree.** -/
theorem output_sort_toTree
    (h : o.Readable) (logicalId : String) : output logicalId o.toTree.sort = .ok o := by
  rw [Output.sort_toTree h]
  have hvalue : Entries.lookup "Value" (presentEntries o.fields) = some o.value.toTree := by
    rw [lookup_presentEntries o.nodup_fields]
    rfl
  unfold output
  simp only [hvalue]
  rw [value_toTree h.value, ok_bind]
  unfold Output.fields
  rw [foldlM_presentEntries_map (fun s condition => { s with condition }) rfl fun _ => rfl,
    foldlM_presentEntries_map (fun s description => { s with description }) rfl fun _ => rfl,
    foldlM_presentEntries_cons (fun s => { s with exportName := o.exportName }) ?_ ?_,
    foldlM_presentEntries_cons id (fun _ => rfl) fun _ _ => rfl]
  · rfl
  · intro hnone
    rw [Option.map_eq_none_iff.1 hnone]
  · intro tree hsome
    obtain ⟨v, hv, rfl⟩ := Option.map_eq_some_iff.1 hsome
    rw [hv]
    exact outputAttribute_export (h.exportName v hv)

end Reading

end Outputs

end CloudTemplate
