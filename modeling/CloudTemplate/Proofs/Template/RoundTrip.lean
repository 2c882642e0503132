import CloudTemplate.Proofs.Template.Declaration
import CloudTemplate.Proofs.Template.Order
import CloudTemplate.Proofs.Template.Resource
import CloudTemplate.Proofs.Template.Source

/-!
# Templates are read back from their documents

All parts of a template that is read have the invariants of what is read
(`Template.Readable`), and a template with these invariants is read back from
the sorted tree of any of its documents (`Template.ofTree_sort_toTree`).

The texts of documents come in through one assumption only, which is about the
text of the document at hand: that it decodes to what was encoded
(`Document.Decodes`).  With it, reading is inverse to writing
(`Template.ofBytes_text_of_toDocument`).
-/

namespace CloudTemplate

open Outcome

section Tables

variable {α : Type}

theorem NameTable.map_sort_toTree?
    (write : α → Tree) (table : NameTable α) :
    (table.toTree? write).map Tree.sort = table.toTree? fun item => (write item).sort := by
  unfold NameTable.toTree?
  split_ifs
  · rfl
  · rw [Option.map_some, sort_map_entries]

/-- The sorted tree of a resource set does not depend on the order in which the
resources were written. -/
theorem ResourceSet.sort_toTree
    {resources : ResourceSet} {order : List String} (hperm : order.Perm resources.names) :
    (ResourceSet.toTree resources order).sort =
      .map (resources.map fun r => r.toTree.sort).entries := by
  rw [ResourceSet.toTree, Tree.sort, Tree.sortEntries_eq_mapValues]
  have hnodup : order.Nodup := hperm.nodup_iff.2 resources.nodup_names
  refine congrArg Tree.map (Entries.sort_eq_of_mem_iff ?_ (NameTable.ascending _) ?_)
  · rw [Entries.names_mapValues, ResourceSet.names_toTree hperm.subset]
    exact hnodup
  · rintro ⟨id, tree⟩
    rw [← NameTable.get?_eq_some_iff, NameTable.get?_map, Option.map_eq_some_iff]
    constructor
    · intro h
      obtain ⟨⟨id', tree'⟩, hmem, heq⟩ := List.mem_map.1 h
      obtain ⟨id'', -, hfound⟩ := List.mem_filterMap.1 hmem
      obtain ⟨r, hr, heq'⟩ := Option.map_eq_some_iff.1 hfound
      cases heq'
      cases heq
      exact ⟨r, hr, rfl⟩
    · rintro ⟨r, hr, rfl⟩
      refine List.mem_map.2 ⟨(id, r.toTree), List.mem_filterMap.2 ⟨id, ?_, ?_⟩, rfl⟩
      · exact hperm.mem_iff.2 (NameTable.mem_names_iff_get?.2 ⟨r, hr⟩)
      · rw [hr]
        rfl

end Tables

/-- The text of the document decodes to what was encoded.  The JSON decoder sorts
the objects as it builds them; the YAML decoder keeps the order of mappings. -/
def Document.Decodes (d : Document) : DocumentFormat → Prop
  | .json => Json.read .refused d.jsonText.toUTF8.toList = .ok d.tree.sort
  | .yaml => ∃ node, Yaml.Node.ofBytes? d.yamlText.toUTF8.toList = some node ∧
      node.Holds d.tree

theorem Document.ofBytes_text
    {d : Document} {format : DocumentFormat} (h : d.Decodes format) :
    Tree.ofBytes format (d.text format).toUTF8.toList = .ok d.tree.sort := by
  cases format with
  | json =>
      rw [Tree.ofBytes, mapError_eq_ok_iff]
      exact h
  | yaml =>
      obtain ⟨node, hnode, hholds⟩ := h
      rw [Tree.ofBytes, Document.text, hnode]
      exact Source.tree_of_holds hholds ""

/-- What holds of the parts of every template that is read. -/
structure Template.Readable (t : Template) : Prop where
  metadata : ∀ tree ∈ t.metadata, tree.Sorted
  transform : ∀ tree ∈ t.transform, tree.Sorted
  parameters : ∀ id p, t.parameters.get? id = some p → p.Readable
  rules : ∀ tree ∈ t.rules, tree.Sorted
  mappings : ∀ name m, t.mappings.get? name = some m → m.Readable
  conditions : ∀ name v, t.conditions.get? name = some v → v.Normal
  resources : ∀ id r, t.resources.get? id = some r →
    loopStart.isPrefixOf id = false ∧ r.Readable
  outputs : ∀ id o, t.outputs.get? id = some o →
    loopStart.isPrefixOf id = false ∧ o.Readable

/-- The sections of a template in the order of their names. -/
def Template.fields (t : Template) : List (String × Option Tree) :=
  [("AWSTemplateFormatVersion", some (.string t.formatVersion)),
    ("Conditions", t.conditions.toTree? fun v => v.toTree.sort),
    ("Description", t.description.map .string),
    ("Mappings", t.mappings.toTree? fun m => m.toTree.sort),
    ("Metadata", t.metadata),
    ("Outputs", t.outputs.toTree? fun o => o.toTree.sort),
    ("Parameters", t.parameters.toTree? fun p => p.toTree.sort),
    ("Resources", t.resources.toTree? fun r => r.toTree.sort),
    ("Rules", t.rules),
    ("Transform", t.transform)]

namespace Template

variable {t : Template} {order : List String}

theorem sort_toTree
    (h : t.Readable) (hperm : order.Perm t.resources.names) :
    (t.toTree order).sort = .map (presentEntries t.fields) := by
  have hresources : (if t.resources.isEmpty then none
      else some (ResourceSet.toTree t.resources order)).map Tree.sort =
      t.resources.toTree? fun r => r.toTree.sort := by
    unfold NameTable.toTree?
    split_ifs
    · rfl
    · rw [Option.map_some, ResourceSet.sort_toTree hperm]
  unfold toTree
  rw [sort_map_presentEntries (by simp [Entries.names])]
  simp only [Entries.mapValues, List.map_cons, List.map_nil, NameTable.map_sort_toTree?,
    map_sort_eq h.metadata, map_sort_eq h.transform, map_sort_eq h.rules, hresources,
    Option.map_map]
  simp [Entries.sort, Entries.insert, fields, Function.comp_def, Tree.sort,
    -String.lt_iff_ltb]

end Template

namespace Reading

variable {t t' : Template} {tree : Tree}

section Sections

variable {α : Type}

/-- Every value of a section that holds a table was read from a sorted tree. -/
theorem forall_of_section
    {name : String} {read : String → Tree → Except Error α} {trees : Entries Tree}
    {found : NameTable α} {motive : String → α → Prop} (hsorted : tree.Sorted)
    (htrees : mapping name tree = .ok trees) (hfound : table read trees = .ok found)
    (h : ∀ key item, item.Sorted → ∀ a, read key item = .ok a → motive key a) :
    ∀ key a, found.get? key = some a → motive key a := by
  intro key a ha
  obtain ⟨item, hitem, hread⟩ := exists_of_table hfound key a ha
  exact h key item (sorted_of_mapping hsorted htrees _ hitem) a hread

/-- The declarations of a section are no loops. -/
theorem forall_of_declarations
    {name : String} {read : String → Tree → Except Error α} {trees : Entries Tree}
    {found : NameTable α} {motive : α → Prop} (hsorted : tree.Sorted)
    (htrees : declarations name tree = .ok trees) (hfound : table read trees = .ok found)
    (h : ∀ key item, item.Sorted → ∀ a, read key item = .ok a → motive a) :
    ∀ key a, found.get? key = some a → loopStart.isPrefixOf key = false ∧ motive a := by
  obtain ⟨entries, hentries, rfl⟩ := map_eq_ok_iff.1 htrees
  intro key a ha
  obtain ⟨item, hitem, hread⟩ := exists_of_table hfound key a ha
  obtain ⟨hmem, hkeep⟩ := List.mem_filter.1 hitem
  exact ⟨by simpa using hkeep,
    h key item (sorted_of_mapping hsorted hentries _ hmem) a hread⟩

/-- One section keeps the invariants of what is read. -/
theorem readable_of_templateSection
    {name : String} (hsorted : tree.Sorted) (ht : t.Readable)
    (h : templateSection t name tree = .ok t') : t'.Readable := by
  unfold templateSection at h
  split at h
  · split at h
    · cases h
      exact { ht with }
    · cases h
      exact { ht with }
    · cases h
  · obtain ⟨_, -, rfl⟩ := map_eq_ok_iff.1 h
    exact { ht with }
  · cases h
    exact { ht with metadata := by simpa using hsorted }
  · cases h
    exact { ht with transform := by simpa using hsorted }
  · cases h
    exact { ht with rules := by simpa using hsorted }
  · obtain ⟨trees, htrees, h⟩ := bind_eq_ok_iff.1 h
    obtain ⟨found, hfound, heq⟩ := bind_eq_ok_iff.1 h
    cases heq
    exact { ht with
      parameters := forall_of_section hsorted htrees hfound
        fun _ _ hitem _ hread => readable_of_parameter hitem hread }
  · obtain ⟨trees, htrees, h⟩ := bind_eq_ok_iff.1 h
    obtain ⟨found, hfound, heq⟩ := bind_eq_ok_iff.1 h
    cases heq
    exact { ht with
      mappings := forall_of_section hsorted htrees hfound
        fun _ _ hitem _ hread => readable_of_twoLevels hitem hread }
  · obtain ⟨trees, htrees, h⟩ := bind_eq_ok_iff.1 h
    obtain ⟨found, hfound, heq⟩ := bind_eq_ok_iff.1 h
    cases heq
    exact { ht with
      conditions := forall_of_section hsorted htrees hfound
        fun _ _ hitem _ hread => normal_of_value hitem _ _ hread }
  · obtain ⟨trees, htrees, h⟩ := bind_eq_ok_iff.1 h
    obtain ⟨found, hfound, heq⟩ := bind_eq_ok_iff.1 h
    cases heq
    exact { ht with
      resources := forall_of_declarations hsorted htrees hfound
        fun _ _ hitem _ hread => readable_of_resource hitem hread }
  · obtain ⟨trees, htrees, h⟩ := bind_eq_ok_iff.1 h
    obtain ⟨found, hfound, heq⟩ := bind_eq_ok_iff.1 h
    cases heq
    exact { ht with
      outputs := forall_of_declarations hsorted htrees hfound
        fun _ _ hitem _ hread => readable_of_output hitem hread }
  · cases h
    exact ht

end Sections

section ReadBack

/-- Declarations that are no loops are all kept. -/
theorem declarations_map
    {α : Type} {table : NameTable α} (name : String) (write : α → Tree)
    (h : ∀ id a, table.get? id = some a → loopStart.isPrefixOf id = false) :
    declarations name (.map (table.map write).entries) = .ok (table.map write).entries := by
  refine congrArg Except.ok (List.filter_eq_self.2 fun entry hentry => ?_)
  obtain ⟨given, hgiven, rfl⟩ := List.mem_map.1 hentry
  rw [h given.1 given.2 (NameTable.get?_eq_some_iff.2 hgiven)]
  rfl

theorem templateSection_parameters
    {parameters : NameTable Parameter}
    (h : ∀ id p, parameters.get? id = some p → p.Readable) :
    templateSection t "Parameters"
        (.map (parameters.map fun p => p.toTree.sort).entries) =
      .ok { t with parameters } := by
  show (table parameter _ >>= fun found => .ok { t with parameters := found }) = _
  rw [table_of_written fun id p hp => parameter_sort_toTree (h id p hp) id]
  rfl

theorem templateSection_mappings
    {mappings : NameTable Mapping}
    (h : ∀ name m, mappings.get? name = some m → m.Readable) :
    templateSection t "Mappings" (.map (mappings.map fun m => m.toTree.sort).entries) =
      .ok { t with mappings } := by
  show (table twoLevels _ >>= fun found => .ok { t with mappings := found }) = _
  rw [table_of_written fun name m hm => twoLevels_sort_toTree (h name m hm) name]
  rfl

theorem templateSection_conditions
    {conditions : NameTable Value}
    (h : ∀ name v, conditions.get? name = some v → v.Normal) :
    templateSection t "Conditions"
        (.map (conditions.map fun v => v.toTree.sort).entries) =
      .ok { t with conditions } := by
  show (table (fun c => value ("Conditions." ++ c)) _ >>= fun found =>
    .ok { t with conditions := found }) = _
  have hread : ∀ name v, conditions.get? name = some v →
      value ("Conditions." ++ name) v.toTree.sort = .ok v := by
    intro name v hv
    rw [(h name v hv).sorted_toTree.sort_eq]
    exact value_toTree (h name v hv) _
  rw [table_of_written hread]
  rfl

theorem templateSection_resources
    {resources : ResourceSet}
    (h : ∀ id r, resources.get? id = some r →
      loopStart.isPrefixOf id = false ∧ r.Readable) :
    templateSection t "Resources" (.map (resources.map fun r => r.toTree.sort).entries) =
      .ok { t with resources } := by
  show (declarations "Resources" _ >>= fun trees => table resource trees >>= fun found =>
    .ok { t with resources := found }) = _
  rw [declarations_map _ _ fun id r hr => (h id r hr).1, ok_bind,
    table_of_written fun id r hr => resource_sort_toTree (h id r hr).2 id]
  rfl

theorem templateSection_outputs
    {outputs : NameTable Output}
    (h : ∀ id o, outputs.get? id = some o → loopStart.isPrefixOf id = false ∧ o.Readable) :
    templateSection t "Outputs" (.map (outputs.map fun o => o.toTree.sort).entries) =
      .ok { t with outputs } := by
  show (declarations "Outputs" _ >>= fun trees => table output trees >>= fun found =>
    .ok { t with outputs := found }) = _
  rw [declarations_map _ _ fun id o ho => (h id o ho).1, ok_bind,
    table_of_written fun id o ho => output_sort_toTree (h id o ho).2 id]
  rfl

/-- The sections of a template are read back one after the other. -/
theorem foldlM_templateSection_fields
    (h : t.Readable) :
    (presentEntries t.fields).foldlM
        (fun t entry => templateSection t entry.1 entry.2) .empty = .ok t := by
  unfold Template.fields
  rw [foldlM_presentEntries_cons (fun s => { s with formatVersion := t.formatVersion })
      ?_ ?_,
    foldlM_presentEntries_table (fun s conditions => { s with conditions })
      rfl (templateSection_conditions h.conditions),
    foldlM_presentEntries_map (fun s description => { s with description }) rfl fun _ => rfl,
    foldlM_presentEntries_table (fun s mappings => { s with mappings })
      rfl (templateSection_mappings h.mappings),
    foldlM_presentEntries_tree (fun s metadata => { s with metadata }) rfl fun _ _ => rfl,
    foldlM_presentEntries_table (fun s outputs => { s with outputs })
      rfl (templateSection_outputs h.outputs),
    foldlM_presentEntries_table (fun s parameters => { s with parameters })
      rfl (templateSection_parameters h.parameters),
    foldlM_presentEntries_table (fun s resources => { s with resources })
      rfl (templateSection_resources h.resources),
    foldlM_presentEntries_tree (fun s rules => { s with rules }) rfl fun _ _ => rfl,
    foldlM_presentEntries_tree (fun s transform => { s with transform })
      rfl fun _ _ => rfl]
  · rfl
  · intro hnone
    cases hnone
  · intro tree hsome
    cases hsome
    rfl

end ReadBack

end Reading

namespace Template

variable {t : Template}

/-- What is read has the invariants of what is read, and no name is declared
twice. -/
theorem readable_of_ofTree
    {tree : Tree} (hsorted : tree.Sorted) (h : ofTree tree = .ok t) :
    t.Readable ∧ Reading.clash? t = none := by
  unfold ofTree at h
  split at h
  · next sections =>
    split_ifs at h
    split at h
    · cases h
    · obtain ⟨found, hloop, h⟩ := bind_eq_ok_iff.1 h
      split at h
      · cases h
      · next hclash =>
        cases h
        refine ⟨foldlM_invariant Readable ?_ ?_ hloop, hclash⟩
        · intro s t entry hentry hs hstep
          exact Reading.readable_of_templateSection
            ((Tree.sorted_map_iff.1 hsorted).2 entry hentry) hs hstep
        · constructor <;> simp [empty, ofResources]
  · cases h

theorem mem_names_fields {name : String} (h : name ∈ Entries.names (presentEntries t.fields)) :
    name ∈ templateSections := by
  have hmem := (names_presentEntries_sublist t.fields).subset h
  simp only [fields, Entries.names, List.map_cons, List.map_nil, List.mem_cons,
    List.not_mem_nil, or_false] at hmem
  rcases hmem with rfl | rfl | rfl | rfl | rfl | rfl | rfl | rfl | rfl | rfl <;> decide

/-- The template, unless it declares a name twice. -/
def checkNames (t : Template) : Except Error Template :=
  match Reading.clash? t with
  | some (name, first, second) =>
    .error (.atPath (second.sectionName ++ "." ++ name) (.declaredTwice name first second))
  | none => .ok t

/-- Known sections are read one after the other, and then the names are
checked. -/
theorem ofTree_map_eq
    {sections : Entries Tree} (hknown : ∀ name ∈ sections.names, name ∈ templateSections)
    (hloop : sections.foldlM
      (fun t entry => Reading.templateSection t entry.1 entry.2) .empty = .ok t) :
    ofTree (.map sections) = t.checkNames := by
  have hmanifest : Entries.hasName "apiVersion" sections = false := by
    rw [← Bool.not_eq_true, Entries.hasName_iff]
    exact fun hmem => absurd (hknown _ hmem) (by decide)
  have hfind : sections.names.find?
      (fun name => !templateSections.contains name) = none := by
    rw [List.find?_eq_none]
    intro name hname
    simpa using hknown name hname
  unfold ofTree checkNames
  simp only [hmanifest, hfind, Bool.false_and, Bool.false_eq_true, if_false]
  rw [hloop, ok_bind]
  cases Reading.clash? t with
  | none => rfl
  | some clash => rfl

theorem ofTree_map_of_known
    {sections : Entries Tree} (hknown : ∀ name ∈ sections.names, name ∈ templateSections)
    (hloop : sections.foldlM
      (fun t entry => Reading.templateSection t entry.1 entry.2) .empty = .ok t)
    (hclash : Reading.clash? t = none) : ofTree (.map sections) = .ok t := by
  rw [ofTree_map_eq hknown hloop, checkNames, hclash]

/-- The sections of a readable template are read, and only then its names are
checked. -/
theorem ofTree_fields_eq
    (h : t.Readable) : ofTree (.map (presentEntries t.fields)) = t.checkNames :=
  ofTree_map_eq (fun _ hname => mem_names_fields hname)
    (Reading.foldlM_templateSection_fields h)

/-- A template is read back from its sections. -/
theorem ofTree_fields
    (h : t.Readable) (hclash : Reading.clash? t = none) :
    ofTree (.map (presentEntries t.fields)) = .ok t := by
  rw [ofTree_fields_eq h, checkNames, hclash]

/-- So it is with the text of a document of the template. -/
theorem ofBytes_text_eq
    {order : List String} {target : DocumentFormat} (h : t.Readable)
    (hperm : order.Perm t.resources.names)
    (htext : (Document.mk (t.toTree order)).Decodes target) :
    ofBytes target ((Document.mk (t.toTree order)).text target).toUTF8.toList =
      t.checkNames := by
  unfold ofBytes
  rw [Document.ofBytes_text htext, sort_toTree h hperm]
  exact ofTree_fields_eq h

/-- A document lists every resource once. -/
theorem exists_order_of_toDocument
    {d : Document} (h : t.toDocument = .ok d) :
    ∃ order : List String, order.Perm t.resources.names ∧ d = ⟨t.toTree order⟩ := by
  obtain ⟨g, hgraph, hordered⟩ := bind_eq_ok_iff.1 h
  obtain ⟨order, horder, heq⟩ := bind_eq_ok_iff.1 hordered
  cases heq
  exact ⟨order, Blueprint.perm_of_creationOrder hgraph horder, rfl⟩

/-- **Reading is inverse to writing.**  When a template that was read from a
text has a document, and the text of the document (in either format) decodes to
what was encoded, the template is read back from it; so its document and its
fingerprint are those of before. -/
theorem ofBytes_text_of_toDocument
    {source target : DocumentFormat} {bytes : List UInt8} {t : Template} {d : Document}
    (hread : ofBytes source bytes = .ok t) (hwrite : t.toDocument = .ok d)
    (htext : d.Decodes target) :
    ofBytes target (d.text target).toUTF8.toList = .ok t ∧
      (ofBytes target (d.text target).toUTF8.toList >>= toDocument) = .ok d ∧
      (ofBytes target (d.text target).toUTF8.toList >>= toDocument).map
        Document.fingerprint = .ok d.fingerprint := by
  obtain ⟨tree, htree, hsections⟩ := bind_eq_ok_iff.1 hread
  obtain ⟨hreadable, hclash⟩ := readable_of_ofTree (Tree.sorted_of_ofBytes htree) hsections
  obtain ⟨g, hgraph, hdocument⟩ := bind_eq_ok_iff.1 hwrite
  obtain ⟨order, horder, hsame⟩ := bind_eq_ok_iff.1 hdocument
  cases hsame
  have hperm : order.Perm t.resources.names := Blueprint.perm_of_creationOrder hgraph horder
  have hback : ofBytes target ((Document.mk (t.toTree order)).text target).toUTF8.toList =
      .ok t := by
    unfold ofBytes
    rw [Document.ofBytes_text htext, sort_toTree hreadable hperm]
    exact ofTree_fields hreadable hclash
  refine ⟨hback, ?_, ?_⟩
  · rw [hback, ok_bind, hwrite]
  · rw [hback, ok_bind, hwrite, map_ok]

/-- Two resources, of which the first depends on the second. -/
def pair : Template :=
  ofResources (.ofList
    [("A", (Resource.ofType "T").withProperty "P" (.map [("Q", .ref "B")])),
      ("B", Resource.ofType "T")])

/-- The pair as it may be written by hand. -/
def pairText : String :=
  "\x7b\"Resources\":\x7b\"A\":\x7b\"Type\":\"T\",\"Properties\":\x7b\"P\":\x7b" ++
  "\"Q\":\x7b\"Ref\":\"B\"\x7d\x7d\x7d\x7d,\"B\":\x7b\"Type\":\"T\"\x7d\x7d\x7d"

theorem decodes_pair : (Document.mk (pair.toTree ["B", "A"])).Decodes .json := by
  show Json.read .refused _ = _
  decide +kernel

theorem ofBytes_text_of_pair :
    ofBytes .json pairText.toUTF8.toList = .ok pair ∧
      pair.toDocument = .ok ⟨pair.toTree ["B", "A"]⟩ ∧
      (Document.mk (pair.toTree ["B", "A"])).Decodes .json ∧
      ofBytes .json ((Document.mk (pair.toTree ["B", "A"])).text .json).toUTF8.toList =
        .ok pair := by
  have hread : ofBytes .json pairText.toUTF8.toList = .ok pair := by decide +kernel
  have hwrite : pair.toDocument = .ok ⟨pair.toTree ["B", "A"]⟩ := by decide +kernel
  exact ⟨hread, hwrite, decodes_pair,
    (ofBytes_text_of_toDocument hread hwrite decodes_pair).1⟩

end Template
end CloudTemplate
