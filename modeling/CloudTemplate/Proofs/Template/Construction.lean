import CloudTemplate.Proofs.Template.RoundTrip

/-!
# Resource sets built in code

A value built with the constructors is well-formed (`Value.Built.sound`), but it
need not be normal: the written form has no way to say that a map with a single
entry is meant literally.  So the document of a resource set built in code is
read back with the same graph when no literal map looks like a reference or a
call, and no id like a loop (`ResourceSet.keepsGraph_of_plain`); without that
condition it may not even be readable (`ResourceSet.not_forall_keepsGraph`).
-/

namespace CloudTemplate

open Outcome

namespace Value

/-- The values that the constructors make. -/
inductive Built : Value → Prop where
  | null : Built .null
  | bool (b : Bool) : Built (.bool b)
  | number (n : Number) : Built (.number n)
  | string (text : String) : Built (.string text)
  | ofTree (tree : Tree) : Built (Value.ofTree tree)
  | list {items : List Value} (h : ∀ item ∈ items, Built item) : Built (.list items)
  | map {entries : Entries Value} (h : ∀ entry ∈ entries, Built entry.2) :
      Built (.map (Entries.sort entries))
  | ref (target : String) : Built (.ref target)
  | attr (target name : String) : Built (.attr target name)
  | condition (name : String) : Built (.condition name)
  | call {f : Intrinsic} {arguments : List Value} {v : Value}
      (h : ∀ argument ∈ arguments, Built argument)
      (hcall : Value.call f arguments = .ok v) : Built v

theorem ofTrees_eq_map (trees : List Tree) : ofTrees trees = trees.map ofTree := by
  induction trees with
  | nil => rfl
  | cons head rest ih => simp [ofTrees, ih]

theorem ofTreeEntries_eq_mapValues (entries : Entries Tree) :
    ofTreeEntries entries = Entries.mapValues ofTree entries := by
  induction entries with
  | nil => rfl
  | cons head rest ih => simp [ofTreeEntries, ih, Entries.mapValues]

theorem sound_ofTree (tree : Tree) : (ofTree tree).Sound := by
  induction tree using Tree.induction with
  | list items ih =>
      rw [ofTree, ofTrees_eq_map]
      refine everywhere_list_iff.2 ⟨trivial, fun item hitem => ?_⟩
      obtain ⟨given, hgiven, rfl⟩ := List.mem_map.1 hitem
      exact ih given hgiven
  | map entries ih =>
      rw [ofTree, ofTreeEntries_eq_mapValues]
      refine everywhere_map_iff.2 ⟨Entries.Ascending.sort _, fun entry hentry => ?_⟩
      obtain ⟨given, hgiven, rfl⟩ := List.mem_map.1 (Entries.mem_of_mem_sort hentry)
      exact ih given hgiven
  | _ => trivial

/-- The constructors keep maps sorted and check the arguments of calls. -/
theorem Built.sound {v : Value} (h : v.Built) : v.Sound := by
  induction h with
  | null => trivial
  | bool b => trivial
  | number n => trivial
  | string text => trivial
  | ofTree tree => exact sound_ofTree tree
  | list _ ih => exact everywhere_list_iff.2 ⟨trivial, ih⟩
  | map _ ih =>
      refine everywhere_map_iff.2 ⟨Entries.Ascending.sort _, fun entry hentry => ?_⟩
      exact ih entry (Entries.mem_of_mem_sort hentry)
  | ref target => trivial
  | attr target name => trivial
  | condition name => trivial
  | @call f arguments v _ hcall ih =>
      unfold Value.call at hcall
      split at hcall
      · cases hcall
      · next hfault =>
        cases hcall
        exact everywhere_apply_iff.2 ⟨hfault, ih⟩

end Value

/-- A resource as the constructors make it: an explicit dependency that is there
already is not added again. -/
structure Resource.Built (r : Resource) : Prop where
  properties : ∀ name v, r.properties.get? name = some v → v.Built
  dependsOn : r.dependsOn.Nodup

namespace Resource

variable {r : Resource}

theorem forall_properties_withProperty
    {motive : Value → Prop} {name : String} {v : Value}
    (h : ∀ name v, r.properties.get? name = some v → motive v) (hv : motive v) :
    ∀ key w, (r.withProperty name v).properties.get? key = some w → motive w := by
  intro key w hw
  rw [withProperty, NameTable.get?_insert] at hw
  split_ifs at hw
  · cases hw
    exact hv
  · exact h key w hw

theorem built_ofType (typeName : String) : (ofType typeName).Built where
  properties := by simp [ofType]
  dependsOn := List.nodup_nil

theorem Built.withProperty
    {name : String} {v : Value} (h : r.Built) (hv : v.Built) :
    (r.withProperty name v).Built where
  properties := forall_properties_withProperty h.properties hv
  dependsOn := h.dependsOn

theorem Built.withDependency (h : r.Built) (target : String) :
    (r.withDependency target).Built where
  properties := by
    unfold Resource.withDependency
    split_ifs
    · exact h.properties
    · exact h.properties
  dependsOn := nodup_withDependency h.dependsOn target

end Resource

section Documents

/-- An order in which each resource stands once makes a document. -/
theorem ResourceSet.toDocument_of_perm
    {resources : ResourceSet} {order : List String} (hperm : order.Perm resources.names) :
    resources.toDocument order = .ok ⟨.map
      [("AWSTemplateFormatVersion", .string Template.defaultFormatVersion),
        ("Resources", ResourceSet.toTree resources order)]⟩ := by
  unfold ResourceSet.toDocument ResourceSet.toDocumentTree
  rw [(orderFault?_eq_none_iff resources.pairwise_names).2 hperm]
  rfl

/-- The resource with its trees sorted, as it is read back. -/
def Resource.sort (r : Resource) : Resource :=
  { r with
    metadata := r.metadata.map Tree.sort
    creationPolicy := r.creationPolicy.map Tree.sort
    updatePolicy := r.updatePolicy.map Tree.sort }

theorem sorted_of_mem_map_sort (found : Option Tree) :
    ∀ tree ∈ found.map Tree.sort, tree.Sorted := by
  intro tree htree
  obtain ⟨given, -, rfl⟩ := Option.map_eq_some_iff.1 htree
  exact given.sorted_sort

theorem Resource.sort_toTree_sort (r : Resource) : r.sort.toTree.sort = r.toTree.sort := by
  have hsort : ∀ found : Option Tree, (found.map Tree.sort).map Tree.sort =
      found.map Tree.sort := fun found => map_sort_eq (sorted_of_mem_map_sort found)
  unfold Resource.toTree
  rw [sort_map_presentEntries (by simp [Entries.names]),
    sort_map_presentEntries (by simp [Entries.names])]
  simp only [Entries.mapValues, List.map_cons, List.map_nil, Resource.sort, hsort]
  rfl

theorem Resource.Built.readable_sort
    {r : Resource} (h : r.Built)
    (hplain : ∀ name v, r.properties.get? name = some v → v.Plain) : r.sort.Readable where
  properties := fun name v hv =>
    Value.normal_iff.2 ⟨(h.properties name v hv).sound, hplain name v hv⟩
  dependsOn := h.dependsOn
  metadata := sorted_of_mem_map_sort _
  creationPolicy := sorted_of_mem_map_sort _
  updatePolicy := sorted_of_mem_map_sort _

/-- The sections of the document of a resource set, sorted. -/
theorem ResourceSet.sort_documentTree
    {resources : ResourceSet} {order : List String} (hperm : order.Perm resources.names) :
    (Tree.map
      [("AWSTemplateFormatVersion", .string Template.defaultFormatVersion),
        ("Resources", ResourceSet.toTree resources order)]).sort =
      .map [("AWSTemplateFormatVersion", .string Template.defaultFormatVersion),
        ("Resources",
          .map ((resources.map Resource.sort).map fun r => r.toTree.sort).entries)] := by
  have hsame : (resources.map fun r => r.toTree.sort) =
      (resources.map Resource.sort).map fun r => r.toTree.sort := by
    rw [NameTable.map_map]
    simp only [Resource.sort_toTree_sort]
  have hascending : ∀ tree : Tree, Entries.Ascending
      [("AWSTemplateFormatVersion", .string Template.defaultFormatVersion),
        ("Resources", tree)] := by
    simp [Entries.Ascending, -String.lt_iff_ltb]
  rw [Tree.sort, Tree.sortEntries, Tree.sortEntries, Tree.sortEntries,
    ResourceSet.sort_toTree hperm, hsame]
  exact congrArg Tree.map (hascending _).sort_eq

/-- The document of a resource set is read back as the set with sorted trees. -/
theorem ResourceSet.ofTree_sort_toDocumentTree
    {resources : ResourceSet} {order : List String} (hperm : order.Perm resources.names)
    (h : ∀ id r, resources.get? id = some r →
      loopStart.isPrefixOf id = false ∧ r.sort.Readable) :
    Template.ofTree (Tree.map
      [("AWSTemplateFormatVersion", .string Template.defaultFormatVersion),
        ("Resources", ResourceSet.toTree resources order)]).sort =
      .ok (Template.ofResources (resources.map Resource.sort)) := by
  have hread : ∀ id r, (resources.map Resource.sort).get? id = some r →
      loopStart.isPrefixOf id = false ∧ r.Readable := by
    intro id r hr
    rw [NameTable.get?_map] at hr
    obtain ⟨given, hgiven, rfl⟩ := Option.map_eq_some_iff.1 hr
    exact h id given hgiven
  rw [ResourceSet.sort_documentTree hperm]
  refine Template.ofTree_map_of_known ?_ ?_ rfl
  · intro name hname
    simp only [Entries.names, List.map_cons, List.map_nil, List.mem_cons, List.not_mem_nil,
      or_false] at hname
    rcases hname with rfl | rfl <;> decide
  · show (Reading.templateSection Template.empty "Resources" _ >>= pure) = _
    rw [Reading.templateSection_resources hread]
    rfl

end Documents

theorem Resource.keepsLinks_sort : Resource.KeepsLinks Resource.sort where
  properties := fun _ => rfl
  condition := fun _ => rfl
  dependsOn := fun _ => rfl

namespace ResourceSet

/-- The resources have a document in the order of their creation, and if its
JSON text decodes to what was encoded, the template that is read from it has
resources with the same graph. -/
def KeepsGraph (resources : ResourceSet) (g : DependencyGraph) : Prop :=
  ∃ order d, g.creationOrder = .ok order ∧ resources.toDocument order = .ok d ∧
    (d.Decodes .json →
      ∃ t g', Template.ofBytes .json d.jsonText.toUTF8.toList = .ok t ∧
        (Blueprint.ofResources t.resources).graph = .ok g' ∧ g'.toMap = g.toMap)

/-- The ids of loops are skipped by the reader, so a set that has one never
gets its graph back. -/
theorem no_loop_of_toMap_eq
    {resources : ResourceSet} {g g' : DependencyGraph} {t : Template} {bytes : List UInt8}
    {format : DocumentFormat} (hgraph : (Blueprint.ofResources resources).graph = .ok g)
    (hread : Template.ofBytes format bytes = .ok t)
    (hback : (Blueprint.ofResources t.resources).graph = .ok g') (hsame : g'.toMap = g.toMap) :
    ∀ id ∈ resources.names, loopStart.isPrefixOf id = false := by
  obtain ⟨tree, htree, hsections⟩ := bind_eq_ok_iff.1 hread
  obtain ⟨hreadable, -⟩ := Template.readable_of_ofTree (Tree.sorted_of_ofBytes htree) hsections
  have hnames : t.resources.names = resources.names := calc
    t.resources.names = g'.ids := (Blueprint.ids_of_graph hback).symm
    _ = NameTable.names g'.toMap := (DependencyGraph.names_toMap g').symm
    _ = NameTable.names g.toMap := by rw [hsame]
    _ = g.ids := DependencyGraph.names_toMap g
    _ = resources.names := Blueprint.ids_of_graph hgraph
  intro id hid
  rw [← hnames] at hid
  obtain ⟨r, hr⟩ := NameTable.mem_names_iff_get?.1 hid
  exact (hreadable.resources id r hr).1

/-- **The graph of a resource set survives writing and reading**, when no map
in a property looks like a reference or a call and no id like a loop. -/
theorem keepsGraph_of_plain
    {resources : ResourceSet} {g : DependencyGraph}
    (hbuilt : ∀ id r, resources.get? id = some r → r.Built)
    (hplain : ∀ id r, resources.get? id = some r →
      ∀ name v, r.properties.get? name = some v → v.Plain)
    (hids : ∀ id ∈ resources.names, loopStart.isPrefixOf id = false)
    (hgraph : (Blueprint.ofResources resources).graph = .ok g) (hacyclic : g.Acyclic) :
    resources.KeepsGraph g := by
  have horder := DependencyGraph.creationOrder_of_acyclic hacyclic
  have hperm : (Adjacency.releaseOrder g.toMap).Perm resources.names :=
    Blueprint.perm_of_creationOrder hgraph horder
  have hreadable : ∀ id r, resources.get? id = some r →
      loopStart.isPrefixOf id = false ∧ r.sort.Readable := fun id r hr =>
    ⟨hids id (NameTable.mem_names_iff_get?.2 ⟨r, hr⟩),
      (hbuilt id r hr).readable_sort (hplain id r hr)⟩
  refine ⟨_, _, horder, toDocument_of_perm hperm, fun htext => ?_⟩
  refine ⟨Template.ofResources (resources.map Resource.sort), g, ?_, ?_, rfl⟩
  · have htree := Document.ofBytes_text htext
    unfold Document.text at htree
    unfold Template.ofBytes
    rw [htree]
    exact ofTree_sort_toDocumentTree hperm hreadable
  · exact (Blueprint.graph_ofResources_map resources Resource.keepsLinks_sort).trans hgraph

theorem keepsGraph_pair :
    (Blueprint.ofResources Template.pair.resources).graph =
        .ok (Blueprint.ofResources Template.pair.resources).soundGraph ∧
      (∃ d, Template.pair.resources.toDocument ["B", "A"] = .ok d ∧ d.Decodes .json) ∧
      KeepsGraph Template.pair.resources
        (Blueprint.ofResources Template.pair.resources).soundGraph := by
  have hgraph : (Blueprint.ofResources Template.pair.resources).graph =
      .ok (Blueprint.ofResources Template.pair.resources).soundGraph :=
    Blueprint.graph_eq_ok_iff.2 ⟨by decide +kernel, by decide +kernel, rfl⟩
  have horder : (Blueprint.ofResources Template.pair.resources).soundGraph.creationOrder =
      .ok ["B", "A"] := by decide +kernel
  have hdocument : Template.pair.resources.toDocument ["B", "A"] =
      .ok ⟨Template.pair.toTree ["B", "A"]⟩ := by decide +kernel
  refine ⟨hgraph, ⟨_, hdocument, Template.decodes_pair⟩,
    keepsGraph_of_plain ?_ ?_ (by decide +kernel) hgraph
      (DependencyGraph.isCreationOrder_of_creationOrder horder).1⟩
  · intro id r hr
    rcases List.mem_pair.1 (NameTable.mem_of_get?_ofList hr) with heq | heq
    · cases heq
      have hmap : (Value.map (Entries.sort [("Q", .ref "B")])).Built := by
        refine .map fun entry hentry => ?_
        rw [List.mem_singleton.1 hentry]
        exact .ref "B"
      exact (Resource.built_ofType "T").withProperty hmap
    · cases heq
      exact Resource.built_ofType "T"
  · intro id r hr
    have htype : ∀ name v, (Resource.ofType "T").properties.get? name = some v → v.Plain := by
      simp [Resource.ofType]
    rcases List.mem_pair.1 (NameTable.mem_of_get?_ofList hr) with heq | heq
    · cases heq
      refine Resource.forall_properties_withProperty htype ⟨⟨?_, ?_, ?_⟩, trivial, trivial⟩
      · decide
      · decide
      · decide
    · cases heq
      exact htype

/-- A resource with a literal map that has the key of an unknown function. -/
def unknownCall : ResourceSet :=
  .ofList [("A", (Resource.ofType "T").withProperty "P"
    (Value.ofTree (.map [("Fn::Bogus", .number (.integer 1))])))]

/-- The document of this resource set. -/
def unknownCallDocument : Document :=
  ⟨.map
    [("AWSTemplateFormatVersion", .string Template.defaultFormatVersion),
      ("Resources", .map [("A", .map [("Type", .string "T"),
        ("Properties", .map [("P", .map [("Fn::Bogus", .number (.integer 1))])])])])]⟩

theorem not_forall_keepsGraph :
    ¬ ∀ (resources : ResourceSet) (g : DependencyGraph),
      (∀ id r, resources.get? id = some r → r.Built) →
      (Blueprint.ofResources resources).graph = .ok g → g.Acyclic →
      resources.KeepsGraph g := by
  intro h
  have hgraph : (Blueprint.ofResources unknownCall).graph =
      .ok (Blueprint.ofResources unknownCall).soundGraph :=
    Blueprint.graph_eq_ok_iff.2 ⟨by decide +kernel, by decide +kernel, rfl⟩
  have horder : (Blueprint.ofResources unknownCall).soundGraph.creationOrder =
      .ok ["A"] := by decide +kernel
  have hbuilt : ∀ id r, unknownCall.get? id = some r → r.Built := by
    intro id r hr
    cases List.mem_singleton.1 (NameTable.mem_of_get?_ofList hr)
    exact (Resource.built_ofType "T").withProperty (.ofTree _)
  obtain ⟨order, d, horder', hdocument, hkeeps⟩ := h unknownCall _ hbuilt hgraph
    (DependencyGraph.isCreationOrder_of_creationOrder horder).1
  rw [horder] at horder'
  cases horder'
  have hwritten : unknownCall.toDocument ["A"] = .ok unknownCallDocument := by
    decide +kernel
  rw [hwritten] at hdocument
  cases hdocument
  have hdecodes : unknownCallDocument.Decodes .json := by
    show Json.read .refused _ = _
    decide +kernel
  obtain ⟨t, g', hread, -, -⟩ := hkeeps hdecodes
  have hback := Document.ofBytes_text hdecodes
  unfold Document.text at hback
  unfold Template.ofBytes at hread
  rw [hback] at hread
  have hfault : Template.ofTree unknownCallDocument.tree.sort =
      .error (.unsupportedIntrinsic "Fn::Bogus" "Resources.A.Properties.P.Fn::Bogus") := by
    decide +kernel
  exact absurd (hfault.symm.trans hread) (by simp)

end ResourceSet
end CloudTemplate
