import CloudTemplate.Proofs.Template.Parts

/-!
# Keys at the places with a fixed schema

Five kinds of maps of a document have a fixed schema (`Reading.FixedSchema`): the
document itself, parameters, resources, outputs and exports.  In a document that
is read, all of them but the exports hold only keys of their schema.  Of an
export the name is read, and what else it holds is discarded.

Main statement: `Template.ofTree_schema`.  It does not hold of exports
(`Template.not_forall_ofTree_schema`).
-/

namespace CloudTemplate

open Outcome

namespace Reading

/-- The attributes of an output. -/
def outputAttributes : List String :=
  ["Value", "Description", "Condition", "Export"]

/-- The places with a fixed schema, and the keys of the schema. -/
inductive FixedSchema : List Tree.Step → List String → Prop
  | document : FixedSchema [] templateSections
  | parameter (id : String) :
      FixedSchema [.entry "Parameters", .entry id] ParameterFault.fields
  | resource {id : String} (hloop : loopStart.isPrefixOf id = false) :
      FixedSchema [.entry "Resources", .entry id] resourceAttributes
  | output {id : String} (hloop : loopStart.isPrefixOf id = false) :
      FixedSchema [.entry "Outputs", .entry id] outputAttributes
  | exported {id : String} (hloop : loopStart.isPrefixOf id = false) :
      FixedSchema (exportPlace id) ["Name"]

variable {id path name : String} {tree : Tree} {entries : Entries Tree}

section Names

theorem mem_fields_of_parameterField
    {p p' : Parameter} (h : parameterField p name tree = .ok p') :
    name ∈ ParameterFault.fields := by
  unfold parameterField at h
  split at h
  case h_12 => cases h
  all_goals decide

theorem mem_outputAttributes
    {o o' : Output} (h : outputAttribute path o name tree = .ok o') :
    name ∈ outputAttributes := by
  unfold outputAttribute at h
  simp only at h
  split at h
  case h_5 => cases h
  all_goals decide

theorem names_of_parameter
    {p : Parameter} (h : parameter id (.map entries) = .ok p) :
    ∀ name ∈ Entries.names entries, name ∈ ParameterFault.fields := by
  intro name hname
  obtain ⟨tree, hentry⟩ := Entries.mem_names_iff.1 hname
  obtain ⟨before, after, hstep⟩ := exists_of_foldlM hentry (mapError_eq_ok_iff.1 h)
  exact mem_fields_of_parameterField hstep

theorem names_of_resource
    {r : Resource} (h : resource id (.map entries) = .ok r) :
    ∀ name ∈ Entries.names entries, name ∈ resourceAttributes := by
  unfold resource at h
  simp only at h
  split at h
  · cases h
  · next hnone =>
    intro name hname
    simpa using List.find?_eq_none.1 hnone name hname

/-- Each attribute of an output is read. -/
theorem outputAttribute_of_output
    {o : Output} (h : output id (.map entries) = .ok o) (hentry : (name, tree) ∈ entries) :
    ∃ before after, outputAttribute ("Outputs." ++ id) before name tree = .ok after := by
  unfold output at h
  simp only at h
  split at h
  · cases h
  · obtain ⟨found, -, hloop⟩ := bind_eq_ok_iff.1 h
    obtain ⟨before, after, hstep⟩ := exists_of_foldlM hentry hloop
    exact ⟨before, after, hstep⟩

theorem names_of_output
    {o : Output} (h : output id (.map entries) = .ok o) :
    ∀ name ∈ Entries.names entries, name ∈ outputAttributes := by
  intro name hname
  obtain ⟨tree, hentry⟩ := Entries.mem_names_iff.1 hname
  obtain ⟨before, after, hstep⟩ := outputAttribute_of_output h hentry
  exact mem_outputAttributes hstep

/-- An export has a name. -/
theorem hasName_of_output
    {o : Output} (h : output id (.map entries) = .ok o) {exported : Entries Tree}
    (hexport : Entries.lookup "Export" entries = some (.map exported)) :
    Entries.hasName "Name" exported = true := by
  obtain ⟨before, after, hstep⟩ := outputAttribute_of_output h (Entries.mem_of_lookup hexport)
  rw [outputAttribute_eq_bind] at hstep
  obtain ⟨name?, hname, hstep⟩ := bind_eq_ok_iff.1 hstep
  cases hname
  rw [Entries.hasName_iff, ← not_not (a := "Name" ∈ _), ← Entries.lookup_eq_none_iff]
  intro hnone
  rw [hnone] at hstep
  cases hstep

end Names

section Sections

variable {t : Template} {α : Type} {read : String → Tree → Except Error α}

/-- A document is a map, and each of its sections is read. -/
theorem section_of_ofTree (h : Template.ofTree (.map entries) = .ok t) :
    (∀ name ∈ Entries.names entries, name ∈ templateSections) ∧
      ∀ entry ∈ entries, ∃ before after, templateSection before entry.1 entry.2 = .ok after := by
  unfold Template.ofTree at h
  simp only at h
  split_ifs at h
  split at h
  · cases h
  · next hnone =>
    obtain ⟨found, hloop, -⟩ := bind_eq_ok_iff.1 h
    refine ⟨fun name hname => ?_, fun entry hentry => ?_⟩
    · simpa using List.find?_eq_none.1 hnone name hname
    · obtain ⟨before, after, hstep⟩ := exists_of_foldlM hentry hloop
      exact ⟨before, after, hstep⟩

theorem read_of_table {found : NameTable α}
    (h : table read entries = .ok found) (hentry : (name, tree) ∈ entries) :
    ∃ item, read name tree = .ok item := by
  obtain ⟨before, after, hstep⟩ := exists_of_foldlM hentry h
  obtain ⟨item, hitem, -⟩ := bind_eq_ok_iff.1 hstep
  exact ⟨item, hitem⟩

theorem read_of_declarations {next : NameTable α → Except Error Template}
    (h : (declarations path (.map entries) >>= fun found => table read found >>= next) = .ok t)
    (hloop : loopStart.isPrefixOf id = false) (hentry : (id, tree) ∈ entries) :
    ∃ item, read id tree = .ok item := by
  obtain ⟨kept, hkept, h⟩ := bind_eq_ok_iff.1 h
  obtain ⟨found, hfound, -⟩ := bind_eq_ok_iff.1 h
  cases hkept
  refine read_of_table hfound (List.mem_filter.2 ⟨hentry, ?_⟩)
  simp [hloop]

end Sections

end Reading

namespace Template

open Reading

variable {doc : Tree} {t : Template} {entries : Entries Tree} {place : List Tree.Step}
variable {keys : List String}

/-- What is declared in a section is read with the section. -/
theorem exists_declared_of_ofTree
    {name id : String} {rest : List Tree.Step} {found : Tree} (h : ofTree doc = .ok t)
    (hat : doc.at? (.entry name :: .entry id :: rest) = some found) :
    ∃ all tree before after, (id, tree) ∈ all ∧
      templateSection before name (.map all) = .ok after ∧ tree.at? rest = some found := by
  obtain ⟨sections, given, rfl, hsection, hat⟩ := Tree.exists_of_at?_entry hat
  obtain ⟨all, tree, rfl, hentry, hat⟩ := Tree.exists_of_at?_entry hat
  obtain ⟨before, after, hread⟩ := (section_of_ofTree h).2 _ (Entries.mem_of_lookup hsection)
  exact ⟨all, tree, before, after, Entries.mem_of_lookup hentry, hread, hat⟩

theorem exists_output_of_ofTree
    {id : String} {rest : List Tree.Step} {found : Tree} (h : ofTree doc = .ok t)
    (hloop : loopStart.isPrefixOf id = false)
    (hat : doc.at? (.entry "Outputs" :: .entry id :: rest) = some found) :
    ∃ tree o, output id tree = .ok o ∧ tree.at? rest = some found := by
  obtain ⟨all, tree, before, after, hentry, hread, hat⟩ := exists_declared_of_ofTree h hat
  obtain ⟨o, ho⟩ := read_of_declarations hread hloop hentry
  exact ⟨tree, o, ho, hat⟩

theorem names_of_fixedSchema
    (h : ofTree doc = .ok t) (hschema : FixedSchema place keys)
    (hexport : ∀ id, place ≠ exportPlace id) (hat : doc.at? place = some (.map entries)) :
    ∀ name ∈ Entries.names entries, name ∈ keys := by
  cases hschema with
  | document =>
      cases hat
      exact (section_of_ofTree h).1
  | parameter id =>
      obtain ⟨all, tree, before, after, hentry, hread, hat⟩ := exists_declared_of_ofTree h hat
      cases hat
      obtain ⟨given, hgiven, hread⟩ := bind_eq_ok_iff.1 hread
      cases hgiven
      obtain ⟨found, hfound, -⟩ := bind_eq_ok_iff.1 hread
      obtain ⟨p, hp⟩ := read_of_table hfound hentry
      exact names_of_parameter hp
  | resource hloop =>
      obtain ⟨all, tree, before, after, hentry, hread, hat⟩ := exists_declared_of_ofTree h hat
      cases hat
      obtain ⟨r, hr⟩ := read_of_declarations hread hloop hentry
      exact names_of_resource hr
  | output hloop =>
      obtain ⟨tree, o, ho, hat⟩ := exists_output_of_ofTree h hloop hat
      cases hat
      exact names_of_output ho
  | exported hloop => exact absurd rfl (hexport _)

/-- **The keys of a document that is read are those of the schema**, wherever a
schema is fixed, but for the exports.  Of these only the name is looked at: a
document is read in the same way whatever else they hold. -/
theorem ofTree_schema (h : ofTree doc = .ok t) :
    (∀ place keys entries, FixedSchema place keys → (∀ id, place ≠ exportPlace id) →
      doc.at? place = some (.map entries) → ∀ name ∈ Entries.names entries, name ∈ keys) ∧
    ∀ id entries, loopStart.isPrefixOf id = false →
      doc.at? (exportPlace id) = some (.map entries) →
      Entries.hasName "Name" entries = true ∧
        ∀ other, Entries.lookup "Name" other = Entries.lookup "Name" entries →
          ofTree (doc.replaceAt (exportPlace id) (.map other)) = .ok t := by
  refine ⟨fun place keys entries hschema hexport hat => ?_, fun id entries hloop hat => ⟨?_, ?_⟩⟩
  · exact names_of_fixedSchema h hschema hexport hat
  · obtain ⟨tree, o, ho, hat⟩ := exists_output_of_ofTree h hloop hat
    obtain ⟨attributes, exported, rfl, hattribute, hat⟩ := Tree.exists_of_at?_entry hat
    cases hat
    exact hasName_of_output ho hattribute
  · intro other hother
    have hsame : exportName? id (.map other) = exportName? id (.map entries) :=
      congrArg Except.ok hother
    rw [(focus_export hloop hat).congr hsame, Tree.replaceAt_self hat, h]

/-- An output with another key beside the name of its export. -/
def exportBeside : Tree :=
  .map [("Outputs", .map [("O", .map [("Value", .string "v"), ("Export",
    .map [("Name", .string "n"), ("Nmae", .string "x")])])])]

theorem ofTree_exportBeside : ∃ t, ofTree exportBeside = .ok t := by
  have hok : (ofTree exportBeside).isOk = true := by decide +kernel
  cases h : ofTree exportBeside with
  | error e =>
      rw [h] at hok
      cases hok
  | ok t => exact ⟨t, rfl⟩

theorem ofTree_schema_output :
    ∃ t, ofTree exportBeside = .ok t ∧ (∀ name ∈ ["Value", "Export"], name ∈ outputAttributes) ∧
      ofTree (.map [("Outputs", .map [("O", .map [("Value", .string "v"), ("Export",
        .map [("Name", .string "n")])])])]) = .ok t := by
  obtain ⟨t, h⟩ := ofTree_exportBeside
  have hloop : loopStart.isPrefixOf "O" = false := by decide +kernel
  obtain ⟨hnames, hexport⟩ := ofTree_schema h
  exact ⟨t, h, hnames _ _ _ (.output hloop) (by simp [exportPlace]) rfl,
    (hexport "O" _ hloop rfl).2 _ rfl⟩

/-- Another key of an export is discarded. -/
theorem not_forall_ofTree_schema :
    ¬ ∀ (doc : Tree) (t : Template) (place : List Tree.Step) (keys : List String)
        (entries : Entries Tree),
      ofTree doc = .ok t → FixedSchema place keys → doc.at? place = some (.map entries) →
        ∀ name ∈ Entries.names entries, name ∈ keys := by
  intro h
  obtain ⟨t, ht⟩ := ofTree_exportBeside
  have hloop : loopStart.isPrefixOf "O" = false := by decide +kernel
  have hmem := h exportBeside t _ _ _ ht (.exported hloop) rfl "Nmae" (by simp [Entries.names])
  simp at hmem

end Template
end CloudTemplate
