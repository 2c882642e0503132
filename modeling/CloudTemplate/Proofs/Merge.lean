import CloudTemplate.Merge
import CloudTemplate.Proofs.Registry
import CloudTemplate.Proofs.Template.RoundTrip

/-!
# What a merge gives

A merge of files is refused just where files that are shown under two names have
a resource of the same name (`ResourcesApart`), and otherwise it is the union of
the templates, section by section (`Template.merge_eq_ok_iff`,
`Template.combined`).  Files that are shown alike are not told apart, so the
union has the resources of all files only if such files agree on the names that
they share (`AgreeWhereAlike`), as they do where paths are texts
(`agreeWhereAlike_of_isText`).

The templates were checked one by one, and the merge looks at resources only.
So of the checks that a template passes when it is read, the union fails one at
most: a name may be declared by one file as a parameter, say, and by another
one as a resource (`Template.DeclaredAcross`).  Main statement: the union is
refused for such a name, and for nothing else (`Template.checkNames_combined`).
-/

namespace CloudTemplate

open Outcome

/-- The units of some files, which are given by their paths and templates. -/
def DeclarationUnit.ofFiles (files : List (FilePath × Template)) : List DeclarationUnit :=
  files.map fun file => .ofTemplate file.1 file.2

section Files

variable {files : List (FilePath × Template)}

/-- No resource is declared by files that are shown under two names. -/
def ResourcesApart (files : List (FilePath × Template)) : Prop :=
  ∀ file ∈ files, ∀ file' ∈ files, ∀ id ∈ file.2.resources.names,
    id ∈ file'.2.resources.names → file.1.shown = file'.1.shown

/-- What two files have under the same name in a section is the same. -/
def AgreeOn {α : Type} (part : Template → NameTable α) (files : List (FilePath × Template)) :
    Prop :=
  ∀ file ∈ files, ∀ file' ∈ files, ∀ id a a',
    (part file.2).get? id = some a → (part file'.2).get? id = some a' → a = a'

/-- What files that are shown alike declare under the same name is the same
resource. -/
def AgreeWhereAlike (files : List (FilePath × Template)) : Prop :=
  ∀ file ∈ files, ∀ file' ∈ files, file.1.shown = file'.1.shown → ∀ id r r',
    file.2.resources.get? id = some r → file'.2.resources.get? id = some r' → r = r'

/-- A path leads to one template, however often it is given. -/
def SameUnderPath (files : List (FilePath × Template)) : Prop :=
  ∀ file ∈ files, ∀ file' ∈ files, file.1 = file'.1 → file.2 = file'.2

theorem agreeWhereAlike_of_isText
    (hsame : SameUnderPath files) (htext : ∀ file ∈ files, file.1.IsText) :
    AgreeWhereAlike files := by
  intro file hfile file' hfile' hshown id r r' hr hr'
  have hpath := FilePath.eq_of_shown_eq (htext file hfile) (htext file' hfile') hshown
  rw [hsame file hfile file' hfile' hpath, hr'] at hr
  exact (Option.some.inj hr).symm

theorem agreeOn_resources
    (happart : ResourcesApart files) (halike : AgreeWhereAlike files) :
    AgreeOn (·.resources) files := by
  intro file hfile file' hfile' id r r' hr hr'
  have hshown := happart file hfile file' hfile' id (NameTable.mem_names_iff_get?.2 ⟨r, hr⟩)
    (NameTable.mem_names_iff_get?.2 ⟨r', hr'⟩)
  exact halike file hfile file' hfile' hshown id r r' hr hr'

end Files

section Shared

variable {units : List LoadedUnit}

theorem mem_namesUnder_holders (units : List LoadedUnit) (table : NameTable NameSet)
    (v id : String) :
    v ∈ (units.foldl (fun holders u => u.registered.foldl
        (fun holders name =>
          holders.insert name (NameSet.add ((holders.get? name).getD .empty) u.name)) holders)
        table).namesUnder id ↔
      (∃ u ∈ units, u.name = v ∧ id ∈ u.registered) ∨ v ∈ table.namesUnder id := by
  induction units generalizing table with
  | nil => simp
  | cons u rest ih =>
      rw [List.foldl_cons, ih, NameTable.mem_namesUnder_foldl_insert_add,
        List.exists_mem_cons_iff, and_comm (a := id ∈ u.registered), eq_comm (a := v),
        or_assoc, or_left_comm]

theorem setsNonempty_holders (units : List LoadedUnit) :
    (units.foldl (fun holders u => u.registered.foldl
      (fun holders name =>
        holders.insert name (NameSet.add ((holders.get? name).getD .empty) u.name)) holders)
      NameTable.empty).SetsNonempty := by
  refine List.foldlRecOn (motive := NameTable.SetsNonempty) units _ NameTable.setsNonempty_empty
    fun holders hholders u _ => ?_
  exact List.foldlRecOn (motive := NameTable.SetsNonempty) u.registered _ hholders
    fun holders hholders name _ => hholders.insert_add _

/-- What units share does not depend on their order. -/
theorem sharedResources_eq_of_perm
    {units' : List LoadedUnit} (hperm : units'.Perm units) :
    sharedResources units' = sharedResources units := by
  unfold sharedResources
  refine congrArg (NameTable.filter _) ?_
  refine NameTable.ext_namesUnder (setsNonempty_holders units') (setsNonempty_holders units)
    fun id name => ?_
  rw [mem_namesUnder_holders, mem_namesUnder_holders]
  simp only [hperm.mem_iff]

/-- Nothing is shared when no name is registered by two units. -/
theorem isEmpty_sharedResources_iff :
    (sharedResources units).isEmpty = true ↔
      ∀ u ∈ units, ∀ u' ∈ units, ∀ id ∈ u.registered, id ∈ u'.registered → u.name = u'.name := by
  have hholders := mem_namesUnder_holders units .empty
  simp only [NameTable.mem_namesUnder_iff, NameTable.get?_empty, reduceCtorEq, false_and,
    exists_false, or_false] at hholders
  unfold sharedResources
  simp only [NameTable.isEmpty_filter_iff, decide_eq_true_eq, not_lt, NameTable.size_le_one_iff]
  constructor
  · intro h u hu u' hu' id hid hid'
    obtain ⟨found, hfound, hname⟩ := (hholders u.name id).2 ⟨u, hu, rfl, hid⟩
    obtain ⟨found', hfound', hname'⟩ := (hholders u'.name id).2 ⟨u', hu', rfl, hid'⟩
    cases hfound.symm.trans hfound'
    exact h id found hfound _ hname _ hname'
  · intro h id found hfound a ha b hb
    obtain ⟨u, hu, rfl, hid⟩ := (hholders a id).1 ⟨found, hfound, ha⟩
    obtain ⟨u', hu', rfl, hid'⟩ := (hholders b id).1 ⟨found, hfound, hb⟩
    exact h u hu u' hu' id hid hid'

end Shared

section Clashes

variable {t : Template} {name : String} {first second : Namespace}

theorem Reading.of_clash?_eq_some
    (h : clash? t = some (name, first, second)) :
    (first, second) ∈ namespacePairs ∧ name ∈ declared t first ∧ name ∈ declared t second := by
  obtain ⟨⟨first', second'⟩, hpair, hfound⟩ := List.exists_of_findSome?_eq_some h
  obtain ⟨name', hname, heq⟩ := Option.map_eq_some_iff.1 hfound
  cases heq
  exact ⟨hpair, List.mem_of_find?_eq_some hname, by simpa using List.find?_some hname⟩

theorem Reading.not_mem_of_clash?_eq_none
    (h : clash? t = none) (hpair : (first, second) ∈ namespacePairs)
    (hname : name ∈ declared t first) : name ∉ declared t second := by
  have hfind := Option.map_eq_none_iff.1 (List.findSome?_eq_none_iff.1 h (first, second) hpair)
  simpa using List.find?_eq_none.1 hfind name hname

end Clashes

namespace Template

/-- All sections of some templates, other than those that are not merged.  Of
equal names the last one counts, and of descriptions the first. -/
def combined (templates : List Template) : Template :=
  { empty with
    description := templates.findSome? (·.description)
    parameters := .unionAll (templates.map (·.parameters))
    mappings := .unionAll (templates.map (·.mappings))
    conditions := .unionAll (templates.map (·.conditions))
    resources := .unionAll (templates.map (·.resources))
    outputs := .unionAll (templates.map (·.outputs)) }

/-- The name is declared in both namespaces, by one of the templates in each. -/
def DeclaredAcross (templates : List Template) (name : String) (first second : Namespace) :
    Prop :=
  (first, second) ∈ Reading.namespacePairs ∧
    (∃ t ∈ templates, name ∈ Reading.declared t first) ∧
    ∃ t ∈ templates, name ∈ Reading.declared t second

variable {templates : List Template} {files : List (FilePath × Template)} {t : Template}
variable {id name : String} {r : Resource}

section Combined

theorem foldl_absorb (contexts : List Template) (merged : Template) :
    contexts.foldl absorb merged =
      { merged with
        description := merged.description.or (contexts.findSome? (·.description))
        parameters := (contexts.map (·.parameters)).foldl .union merged.parameters
        mappings := (contexts.map (·.mappings)).foldl .union merged.mappings
        conditions := (contexts.map (·.conditions)).foldl .union merged.conditions
        outputs := (contexts.map (·.outputs)).foldl .union merged.outputs } := by
  induction contexts generalizing merged with
  | nil => simp
  | cons head rest ih =>
      rw [List.foldl_cons, ih]
      simp only [absorb, List.map_cons, List.foldl_cons, List.findSome?_cons, Option.or_assoc]
      cases head.description <;> rfl

theorem mergeContexts_ofFiles (files : List (FilePath × Template)) :
    mergeContexts ((DeclarationUnit.ofFiles files).map DeclarationUnit.loaded) =
      { combined (files.map Prod.snd) with resources := .empty } := by
  have hloop : mergeContexts ((DeclarationUnit.ofFiles files).map DeclarationUnit.loaded) =
      (files.map Prod.snd).foldl absorb empty := by
    simp only [mergeContexts, DeclarationUnit.ofFiles, List.foldl_map]
    rfl
  rw [hloop, foldl_absorb]
  rfl

theorem snapshot_ofFiles (files : List (FilePath × Template)) :
    (DeclarationUnit.registerAll .empty (DeclarationUnit.ofFiles files)).snapshot =
      .ok (combined (files.map Prod.snd)).resources := by
  rw [DeclarationUnit.snapshot_registerAll]
  simp only [combined, DeclarationUnit.ofFiles, List.map_map]
  refine congrArg (fun tables => Except.ok (NameTable.unionAll tables))
    (List.map_congr_left fun file _ => ?_)
  exact NameTable.ofList_entries file.2.resources

theorem isEmpty_sharedResources_ofFiles_iff :
    (sharedResources ((DeclarationUnit.ofFiles files).map
      DeclarationUnit.loaded)).isEmpty = true ↔ ResourcesApart files := by
  rw [isEmpty_sharedResources_iff]
  simp only [DeclarationUnit.ofFiles, List.map_map, List.forall_mem_map]
  rfl

/-- The merge is the union, and it is refused for shared resources only. -/
theorem merge_eq_ok_iff :
    merge (DeclarationUnit.ofFiles files) = .ok t ↔
      ResourcesApart files ∧ t = combined (files.map Prod.snd) := by
  unfold merge mergeLoaded
  rw [snapshot_ofFiles, mergeContexts_ofFiles]
  by_cases happart : ResourcesApart files
  · rw [if_pos (isEmpty_sharedResources_ofFiles_iff.2 happart), and_iff_right happart]
    show Except.ok (combined (files.map Prod.snd)) = Except.ok t ↔ _
    rw [Except.ok.injEq, eq_comm]
  · rw [if_neg (mt isEmpty_sharedResources_ofFiles_iff.1 happart)]
    exact iff_of_false (by simp) fun h => happart h.1

/-- The entries of a union come from the templates. -/
theorem exists_of_get?_unionAll_map
    {α : Type} {part : Template → NameTable α} {a : α}
    (h : (NameTable.unionAll ((files.map Prod.snd).map part)).get? id = some a) :
    ∃ file ∈ files, (part file.2).get? id = some a := by
  obtain ⟨table, htable, hget⟩ := NameTable.exists_of_get?_unionAll h
  simp only [List.map_map, List.mem_map] at htable
  obtain ⟨file, hfile, rfl⟩ := htable
  exact ⟨file, hfile, hget⟩

theorem mem_names_resources_combined_iff :
    id ∈ (combined (files.map Prod.snd)).resources.names ↔
      ∃ file ∈ files, id ∈ file.2.resources.names := by
  simp only [combined, NameTable.mem_names_unionAll, List.map_map, List.mem_map,
    exists_exists_and_eq_and, Function.comp_apply]

/-- Where templates agree on a section, its union has the entries of all of
them. -/
theorem get?_unionAll_iff
    {α : Type} {part : Template → NameTable α} {a : α} (hagree : AgreeOn part files) :
    (NameTable.unionAll ((files.map Prod.snd).map part)).get? id = some a ↔
      ∃ file ∈ files, (part file.2).get? id = some a := by
  refine ⟨exists_of_get?_unionAll_map, ?_⟩
  rintro ⟨file, hfile, ha⟩
  have hid := NameTable.mem_names_iff_get?.2 ⟨a, ha⟩
  have hmem : id ∈ (NameTable.unionAll ((files.map Prod.snd).map part)).names :=
    NameTable.mem_names_unionAll.2 ⟨_, List.mem_map_of_mem (List.mem_map_of_mem hfile), hid⟩
  obtain ⟨a', ha'⟩ := NameTable.mem_names_iff_get?.1 hmem
  -- The file that counts may be another one, but it has the same entry.
  obtain ⟨file', hfile', hget⟩ := exists_of_get?_unionAll_map ha'
  rw [hagree file hfile file' hfile' id a a' ha hget]
  exact ha'

end Combined

section Order

variable {files' : List (FilePath × Template)}

/-- Two files have nothing of the same name beside their resources, and at most
one of them has a description. -/
@[mk_iff]
structure SectionsApart (file file' : Template) : Prop where
  description : file.description = none ∨ file'.description = none
  parameters : ∀ name ∈ file.parameters.names, name ∉ file'.parameters.names
  mappings : ∀ name ∈ file.mappings.names, name ∉ file'.mappings.names
  conditions : ∀ name ∈ file.conditions.names, name ∉ file'.conditions.names
  outputs : ∀ name ∈ file.outputs.names, name ∉ file'.outputs.names

instance (file file' : Template) : Decidable (SectionsApart file file') :=
  decidable_of_iff' _ (sectionsApart_iff file file')

theorem agreeOn_of_perm
    {α : Type} {part : Template → NameTable α} (hperm : files'.Perm files)
    (hagree : AgreeOn part files) : AgreeOn part files' := fun file hfile file' hfile' =>
  hagree file (hperm.mem_iff.1 hfile) file' (hperm.mem_iff.1 hfile')

/-- A section on which templates agree has the same union in every order. -/
theorem unionAll_eq_of_perm
    {α : Type} {part : Template → NameTable α} (hperm : files'.Perm files)
    (hagree : AgreeOn part files) :
    NameTable.unionAll ((files'.map Prod.snd).map part) =
      NameTable.unionAll ((files.map Prod.snd).map part) := by
  refine NameTable.ext_get? fun id => Option.ext fun a => ?_
  rw [get?_unionAll_iff hagree, get?_unionAll_iff (agreeOn_of_perm hperm hagree)]
  simp only [hperm.mem_iff]

/-- Files agree on a section whose names are apart. -/
theorem agreeOn_of_sectionsApart
    {α : Type} {part : Template → NameTable α} (hsame : SameUnderPath files)
    (hsections : ∀ file ∈ files, ∀ file' ∈ files, file.1 ≠ file'.1 →
      SectionsApart file.2 file'.2)
    (hnames : ∀ t t', SectionsApart t t' → ∀ name ∈ (part t).names, name ∉ (part t').names) :
    AgreeOn part files := by
  intro file hfile file' hfile' id a a' ha ha'
  by_cases hpath : file.1 = file'.1
  · rw [hsame file hfile file' hfile' hpath, ha'] at ha
    exact (Option.some.inj ha).symm
  · have happart := hnames _ _ (hsections file hfile file' hfile' hpath) id
      (NameTable.mem_names_iff_get?.2 ⟨a, ha⟩)
    exact absurd (NameTable.mem_names_iff_get?.2 ⟨a', ha'⟩) happart

/-- The first description is any description where there is at most one. -/
theorem findSome?_description_eq_some_iff
    {text : String}
    (happart : ∀ file ∈ files, ∀ file' ∈ files, file.1 ≠ file'.1 →
      file.2.description = none ∨ file'.2.description = none)
    (hsame : SameUnderPath files) :
    (files.map Prod.snd).findSome? (·.description) = some text ↔
      ∃ file ∈ files, file.2.description = some text := by
  have hsome : ∀ text, (files.map Prod.snd).findSome? (·.description) = some text →
      ∃ file ∈ files, file.2.description = some text := by
    intro text h
    obtain ⟨t, ht, htext⟩ := List.exists_of_findSome?_eq_some h
    obtain ⟨file, hfile, rfl⟩ := List.mem_map.1 ht
    exact ⟨file, hfile, htext⟩
  refine ⟨hsome text, ?_⟩
  rintro ⟨file, hfile, htext⟩
  cases hfound : (files.map Prod.snd).findSome? (·.description) with
  | none =>
      rw [List.findSome?_eq_none_iff] at hfound
      rw [hfound file.2 (List.mem_map_of_mem hfile)] at htext
      cases htext
  | some text' =>
      obtain ⟨file', hfile', htext'⟩ := hsome text' hfound
      by_cases hpath : file.1 = file'.1
      · rw [← htext, ← htext', hsame file hfile file' hfile' hpath]
      · rcases happart file hfile file' hfile' hpath with hnone | hnone
        · rw [hnone] at htext
          cases htext
        · rw [hnone] at htext'
          cases htext'

/-- The union does not depend on the order of files whose names are apart. -/
theorem combined_eq_of_perm
    (hperm : files'.Perm files) (hresources : AgreeOn (·.resources) files)
    (hsections : ∀ file ∈ files, ∀ file' ∈ files, file.1 ≠ file'.1 →
      SectionsApart file.2 file'.2)
    (hsame : SameUnderPath files) :
    combined (files'.map Prod.snd) = combined (files.map Prod.snd) := by
  have hdescription : (files'.map Prod.snd).findSome? (·.description) =
      (files.map Prod.snd).findSome? (·.description) := by
    refine Option.ext fun text => ?_
    rw [findSome?_description_eq_some_iff
        (fun file hfile file' hfile' hpath =>
          (hsections file hfile file' hfile' hpath).description) hsame,
      findSome?_description_eq_some_iff]
    · simp only [hperm.mem_iff]
    · intro file hfile file' hfile' hpath
      exact (hsections file (hperm.mem_iff.1 hfile) file' (hperm.mem_iff.1 hfile')
        hpath).description
    · intro file hfile file' hfile'
      exact hsame file (hperm.mem_iff.1 hfile) file' (hperm.mem_iff.1 hfile')
  have hparameters := unionAll_eq_of_perm hperm
    (agreeOn_of_sectionsApart hsame hsections fun _ _ => SectionsApart.parameters)
  have hmappings := unionAll_eq_of_perm hperm
    (agreeOn_of_sectionsApart hsame hsections fun _ _ => SectionsApart.mappings)
  have hconditions := unionAll_eq_of_perm hperm
    (agreeOn_of_sectionsApart hsame hsections fun _ _ => SectionsApart.conditions)
  have houtputs := unionAll_eq_of_perm hperm
    (agreeOn_of_sectionsApart hsame hsections fun _ _ => SectionsApart.outputs)
  have hresources := unionAll_eq_of_perm hperm hresources
  unfold combined
  rw [hdescription, hparameters, hmappings, hconditions, hresources, houtputs]

end Order

section Names

/-- What holds of the entries of a section holds of those of the union. -/
theorem forall_of_get?_unionAll
    {α : Type} {part : Template → NameTable α} {motive : String → α → Prop}
    (h : ∀ t ∈ templates, ∀ id a, (part t).get? id = some a → motive id a) :
    ∀ id a, (NameTable.unionAll (templates.map part)).get? id = some a → motive id a := by
  intro id a ha
  obtain ⟨table, htable, hget⟩ := NameTable.exists_of_get?_unionAll ha
  obtain ⟨t, ht, rfl⟩ := List.mem_map.1 htable
  exact h t ht id a hget

theorem readable_combined (h : ∀ t ∈ templates, t.Readable) : (combined templates).Readable where
  metadata := fun _ hnone => by cases hnone
  transform := fun _ hnone => by cases hnone
  rules := fun _ hnone => by cases hnone
  parameters := forall_of_get?_unionAll fun t ht => (h t ht).parameters
  mappings := forall_of_get?_unionAll fun t ht => (h t ht).mappings
  conditions := forall_of_get?_unionAll fun t ht => (h t ht).conditions
  resources := forall_of_get?_unionAll fun t ht => (h t ht).resources
  outputs := forall_of_get?_unionAll fun t ht => (h t ht).outputs

theorem mem_declared_combined_iff (space : Namespace) :
    name ∈ Reading.declared (combined templates) space ↔
      ∃ t ∈ templates, name ∈ Reading.declared t space := by
  cases space <;>
    simp only [Reading.declared, combined, NameTable.mem_names_unionAll, List.mem_map,
      exists_exists_and_eq_and]

/-- **A union is refused for a name that is declared in two namespaces.**  Where
there is no such name, reading gives the union itself. -/
theorem checkNames_combined (templates : List Template) :
    match (combined templates).checkNames with
    | .ok t => t = combined templates ∧
        ∀ name first second, ¬ DeclaredAcross templates name first second
    | .error reason => ∃ name first second, DeclaredAcross templates name first second ∧
        reason = .atPath (second.sectionName ++ "." ++ name)
          (.declaredTwice name first second) := by
  unfold checkNames
  cases hclash : Reading.clash? (combined templates) with
  | none =>
      refine ⟨rfl, fun name first second ⟨hpair, hfirst, hsecond⟩ => ?_⟩
      exact Reading.not_mem_of_clash?_eq_none hclash hpair
        ((mem_declared_combined_iff first).2 hfirst)
        ((mem_declared_combined_iff second).2 hsecond)
  | some clash =>
      obtain ⟨name, first, second⟩ := clash
      obtain ⟨hpair, hfirst, hsecond⟩ := Reading.of_clash?_eq_some hclash
      exact ⟨name, first, second, ⟨hpair, (mem_declared_combined_iff first).1 hfirst,
        (mem_declared_combined_iff second).1 hsecond⟩, rfl⟩

end Names
end Template

end CloudTemplate
