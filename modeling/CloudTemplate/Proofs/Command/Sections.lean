import CloudTemplate.Proofs.Command.Loading

/-!
# What a build keeps of a single file

A template that is built on its own is taken apart into its resources and what
it declares beside them, and put together again.  Its resources, parameters,
mappings, conditions, outputs and its description come through unchanged; its
metadata, transforms and rules are lost, and its format version becomes the
default one (`Template.kept`).  None of these bears on the order of the
resources, so what is built is the document of the template without the lost
sections (`Document.kept`).

Main statement: a build of one file hands out what is kept of the document of
its template, and that is the whole document just where there was nothing to
lose (`Command.run_build_single`).
-/

namespace CloudTemplate

open Outcome

namespace Template

/-- The sections that no merge keeps. -/
def lostSections : List String :=
  ["Metadata", "Transform", "Rules"]

/-- What a merge keeps of a template. -/
def kept (t : Template) : Template :=
  { t with
    formatVersion := defaultFormatVersion
    metadata := none
    transform := none
    rules := none }

/-- What a merge keeps of the sections of a document. -/
def keptSections (sections : Entries Tree) : Entries Tree :=
  (sections.filter fun entry => entry.1 ∉ lostSections).map fun entry =>
    if entry.1 = "AWSTemplateFormatVersion" then (entry.1, .string defaultFormatVersion)
    else entry

end Template

/-- What a merge keeps of a document. -/
def Document.kept (d : Document) : Document :=
  match d.tree with
  | .map sections => ⟨.map (Template.keptSections sections)⟩
  | _ => d

namespace Template

variable {t : Template} {order : List String}

section Merged

theorem kept_eq_self_iff :
    t.kept = t ↔ t.formatVersion = defaultFormatVersion ∧ t.metadata = none ∧
      t.transform = none ∧ t.rules = none := by
  cases t
  simp [kept, eq_comm]

theorem combined_singleton (t : Template) : combined [t] = t.kept := by
  have hdescription : [t].findSome? (·.description) = t.description := by
    rw [List.findSome?_cons, List.findSome?_nil]
    cases t.description <;> rfl
  unfold combined
  simp only [List.map_cons, List.map_nil, NameTable.unionAll_singleton, hdescription]
  rfl

/-- A single file is merged, and what a merge keeps is left of it. -/
theorem merge_ofFiles_singleton (path : FilePath) (t : Template) :
    merge (DeclarationUnit.ofFiles [(path, t)]) = .ok t.kept := by
  refine merge_eq_ok_iff.2 ⟨fun file hfile file' hfile' _ _ _ => ?_, (combined_singleton t).symm⟩
  rw [List.mem_singleton.1 hfile, List.mem_singleton.1 hfile']

/-- Nothing that the graph is derived from is lost. -/
theorem ofTemplate_kept (t : Template) : Blueprint.ofTemplate t.kept = Blueprint.ofTemplate t :=
  rfl

end Merged

section Written

variable {name : String} {found : Option Tree} {sections : List (String × Option Tree)}

theorem keptSections_version (version : String) (sections : List (String × Option Tree)) :
    keptSections
        (presentEntries (("AWSTemplateFormatVersion", some (.string version)) :: sections)) =
      ("AWSTemplateFormatVersion", .string defaultFormatVersion) ::
        keptSections (presentEntries sections) := rfl

theorem keptSections_cons_lost
    (hlost : name ∈ lostSections) :
    keptSections (presentEntries ((name, found) :: sections)) =
      keptSections (presentEntries sections) := by
  cases found with
  | none => rfl
  | some tree => simp [presentEntries_cons_some, keptSections, hlost]

theorem keptSections_cons_kept
    (hlost : name ∉ lostSections) (hversion : name ≠ "AWSTemplateFormatVersion") :
    keptSections (presentEntries ((name, found) :: sections)) =
      (found.map fun tree => (name, tree)).toList ++ keptSections (presentEntries sections) := by
  cases found with
  | none => rfl
  | some tree => simp [presentEntries_cons_some, keptSections, hlost, hversion]

theorem kept_toTree (t : Template) (order : List String) :
    (Document.mk (t.toTree order)).kept = ⟨t.kept.toTree order⟩ := by
  simp only [Template.toTree, Document.kept, kept]
  rw [keptSections_version, presentEntries_cons_some]
  simp (disch := decide) only [keptSections_cons_lost, keptSections_cons_kept]
  simp only [presentEntries_cons, Option.map_none, Option.toList_none, List.nil_append]
  rfl

theorem toDocument_kept (t : Template) :
    t.kept.toDocument = t.toDocument.map Document.kept := by
  unfold toDocument
  rw [ofTemplate_kept]
  cases (Blueprint.ofTemplate t).graph with
  | error e => rfl
  | ok g =>
      simp only [ok_bind]
      cases g.creationOrder with
      | error e => rfl
      | ok order => exact congrArg Except.ok (kept_toTree t order).symm

/-- What may be lost can be looked up in the document. -/
theorem exists_sections_toTree (t : Template) (order : List String) :
    ∃ sections, t.toTree order = .map sections ∧
      Entries.lookup "AWSTemplateFormatVersion" sections = some (.string t.formatVersion) ∧
      Entries.lookup "Metadata" sections = t.metadata ∧
      Entries.lookup "Transform" sections = t.transform ∧
      Entries.lookup "Rules" sections = t.rules := by
  refine ⟨_, rfl, lookup_presentEntries ?_, lookup_presentEntries ?_, lookup_presentEntries ?_,
    lookup_presentEntries ?_⟩ <;> simp [Entries.names]

/-- A document is kept as a whole just where its template is. -/
theorem kept_toTree_eq_self_iff :
    (Document.mk (t.toTree order)).kept = ⟨t.toTree order⟩ ↔ t.kept = t := by
  rw [kept_toTree]
  refine ⟨fun h => ?_, fun h => by rw [h]⟩
  obtain ⟨sections, htree, hversion, hmetadata, htransform, hrules⟩ :=
    exists_sections_toTree t order
  obtain ⟨sections', htree', hversion', hmetadata', htransform', hrules'⟩ :=
    exists_sections_toTree t.kept order
  rw [Document.mk.injEq, htree, htree', Tree.map.injEq] at h
  subst h
  rw [hversion] at hversion'
  exact kept_eq_self_iff.2 ⟨Tree.string.inj (Option.some.inj hversion'),
    hmetadata.symm.trans hmetadata', htransform.symm.trans htransform',
    hrules.symm.trans hrules'⟩

end Written

end Template

namespace Command

variable {store : FileStore} {path : FilePath} {t : Template}

theorem builtDocument_single
    (hloaded : templateOf path (store.read path) = .ok t) :
    builtDocument store [path] =
      (t.toDocument.map Document.kept).mapError Failure.ofError := by
  have hfiles : ∀ file ∈ [(path, t)], templateOf file.1 (store.read file.1) = .ok file.2 := by
    intro file hfile
    rw [List.mem_singleton.1 hfile]
    exact hloaded
  rw [← Template.toDocument_kept]
  refine (builtDocument_of_loaded hfiles).trans ?_
  rw [Template.merge_ofFiles_singleton]
  rfl

/-- **A build of one file hands out what is kept of its document.**  It fails
only where the template has no document.  The document is kept as a whole just
where the template has the default format version and neither metadata nor
transforms nor rules. -/
theorem run_build_single
    (surroundings : Surroundings) (configuration output : Option FilePath) (isYaml : Bool)
    (hloaded : templateOf path (store.read path) = .ok t) :
    (Invocation.run FileStore.access surroundings
        ⟨.build [path] output isYaml, configuration⟩).run store =
      finish store output isYaml ((t.toDocument.map Document.kept).mapError Failure.ofError) ∧
    ∀ d, t.toDocument = .ok d →
      (d.kept = d ↔ t.formatVersion = Template.defaultFormatVersion ∧ t.metadata = none ∧
        t.transform = none ∧ t.rules = none) := by
  refine ⟨by rw [run_build, builtDocument_single hloaded], fun d hdocument => ?_⟩
  obtain ⟨order, -, rfl⟩ := Template.exists_order_of_toDocument hdocument
  exact Template.kept_toTree_eq_self_iff.trans Template.kept_eq_self_iff

/-- The text of a file that asks for a transform. -/
def transformingText : String :=
  "\x7b\"Transform\":\"X\",\"Parameters\":\x7b\"X\":\x7b\"Type\":\"String\"\x7d\x7d," ++
  "\"Resources\":\x7b\"R\":\x7b\"Type\":\"T\"\x7d\x7d\x7d"

/-- A store with this file. -/
def transformingStore : FileStore :=
  .ofFiles [("s.json", transformingText.toUTF8.toList)]

/-- The template of this file. -/
def transforming : Template :=
  { withParameter "R" (.ofType "T") with transform := some (.string "X") }

theorem templateOf_toDocument_transforming :
    templateOf "s.json" (transformingStore.read "s.json") = .ok transforming ∧
      transforming.toDocument = .ok ⟨transforming.toTree ["R"]⟩ := by
  decide +kernel

theorem run_build_transforming :
    templateOf "s.json" (transformingStore.read "s.json") = .ok transforming ∧
      (Invocation.run FileStore.access ⟨none, "/"⟩
          ⟨.build ["s.json"] (some "d.json") false, none⟩).run transformingStore =
        deliver transformingStore (some "d.json")
          (Document.mk ((withParameter "R" (.ofType "T")).toTree ["R"])).jsonText ∧
      (Document.mk (transforming.toTree ["R"])).kept ≠ ⟨transforming.toTree ["R"]⟩ := by
  obtain ⟨hloaded, hdocument⟩ := templateOf_toDocument_transforming
  obtain ⟨hrun, hkept⟩ := run_build_single ⟨none, "/"⟩ none (some "d.json") false hloaded
  refine ⟨hloaded, ?_, fun h => ?_⟩
  · rw [hrun, hdocument]
    rfl
  · obtain ⟨-, -, htransform, -⟩ := (hkept _ hdocument).1 h
    cases htransform

/-- A build of a file may hand out another document than that of its template:
it loses the transform. -/
theorem not_forall_build_eq_toDocument :
    ¬ ∀ (store : FileStore) (surroundings : Surroundings) (configuration : Option FilePath)
      (path : FilePath) (output : Option FilePath) (isYaml : Bool) (t : Template) (d : Document),
      templateOf path (store.read path) = .ok t → t.toDocument = .ok d →
        (Invocation.run FileStore.access surroundings
          ⟨.build [path] output isYaml, configuration⟩).run store =
            finish store output isYaml (.ok d) := by
  intro h
  obtain ⟨hloaded, hdocument⟩ := templateOf_toDocument_transforming
  have hwhole := h transformingStore ⟨none, "/"⟩ none "s.json" none false transforming _
    hloaded hdocument
  have hbuilt : builtDocument transformingStore ["s.json"] =
      .ok ⟨transforming.kept.toTree ["R"]⟩ := by
    rw [builtDocument_single hloaded, hdocument, ← Template.kept_toTree]
    rfl
  rw [run_build, hbuilt, finish_json, finish_json] at hwhole
  have htext := congrArg Printed.output (Except.ok.inj (congrArg Prod.fst hwhole))
  revert htext
  decide +kernel

end Command
end CloudTemplate
