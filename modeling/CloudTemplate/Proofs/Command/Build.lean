import CloudTemplate.Command.Run
import CloudTemplate.Proofs.Merge

/-!
# Built documents

A build loads the files under its paths, merges their templates, and hands the
document of the merged template out.  On the files of a store, all of this but
the last step leaves the store as it is (`Command.runOn_runBuild`), so the
document depends on the content of the files only (`Command.builtDocument`).

Main statement: a document that was built is read back as the merged template,
unless a name is declared across files (`Command.ofBytes_of_build`).  The merged
template has the resources of all files, if their names tell the files apart.
There are files with names across them, so a document that was built may be one
that is refused (`Command.not_forall_built_accepted`).
-/

namespace CloudTemplate

open Outcome

section Texts

theorem Text.trimEnd_append_brace (start : String) :
    trimEnd (start ++ "\x7d") = start ++ "\x7d" := by
  have hbrace : (start ++ "\x7d").toList.reverse = '\x7d' :: start.toList.reverse := by
    rw [String.toList_append, List.reverse_append]
    rfl
  have hblank : ¬ isBlank '\x7d' = true := by decide
  rw [trimEnd, hbrace, List.dropWhile_cons_of_neg hblank, ← hbrace, List.reverse_reverse,
    String.ofList_toList]

/-- The text of a map ends in a brace, so there is nothing to trim. -/
theorem Json.trimEnd_pretty_map (entries : Entries Tree) :
    Text.trimEnd (pretty (.map entries)) = pretty (.map entries) := by
  have hbrace : ∃ start, pretty (.map entries) = start ++ "\x7d" := by
    show ∃ start, bracketed _ _ _ _ = start ++ "\x7d"
    unfold bracketed
    split_ifs
    · exact ⟨_, rfl⟩
    · exact ⟨_, rfl⟩
  obtain ⟨start, hstart⟩ := hbrace
  rw [hstart, Text.trimEnd_append_brace]

end Texts

namespace Command

variable {α β : Type} {store store' : FileStore}

section Runs

/-- Run an attempt on the files of a store. -/
def runOn (x : Attempt (StateM FileStore) α) (store : FileStore) :
    Except Failure α × FileStore :=
  x.run.run store

theorem runOn_attempt (result : Except Failure α) :
    runOn (attempt result) store = (result, store) := rfl

theorem runOn_readFile (path : FilePath) :
    runOn (readFile FileStore.access path) store = (.ok (store.read path), store) := rfl

theorem runOn_write (path : FilePath) (content : Bytes) :
    runOn (ExceptT.lift (FileStore.access.write path content)) store =
      match store.write path content with
      | .ok store' => (.ok (.ok ()), store')
      | .error fault => (.ok (.error fault), store) := by
  cases h : store.write path content with
  | ok store' =>
      simp only [runOn, FileStore.access, bind_pure_comp, ExceptT.lift_bind, ExceptT.run_bind_lift,
        ExceptT.run_lift, StateT.run_bind, StateT.run_get, StateT.run_map, pure_bind, h,
        StateT.run_set, map_pure]
      rfl
  | error fault =>
      simp only [runOn, FileStore.access, bind_pure_comp, ExceptT.lift_bind, ExceptT.run_bind_lift,
        ExceptT.run_lift, StateT.run_bind, StateT.run_get, StateT.run_map, pure_bind, h,
        StateT.run_pure, map_pure]
      rfl

theorem runOn_bind (x : Attempt (StateM FileStore) α) (f : α → Attempt (StateM FileStore) β) :
    runOn (x >>= f) store =
      match runOn x store with
      | (.ok a, store') => runOn (f a) store'
      | (.error failure, store') => (.error failure, store') := by
  unfold runOn
  rw [ExceptT.run_bind, StateT.run_bind]
  rcases x.run.run store with ⟨_ | a, store'⟩
  · rfl
  · rfl

/-- After a check, the rest runs on the same files. -/
theorem runOn_attempt_bind (result : Except Failure α) (f : α → Attempt (StateM FileStore) β) :
    runOn (attempt result >>= f) store =
      match result with
      | .ok a => runOn (f a) store
      | .error failure => (.error failure, store) := by
  rw [runOn_bind, runOn_attempt]
  cases result with
  | ok a => rfl
  | error failure => rfl

end Runs

section Loading

/-- The files under some paths, with their templates. -/
def filesOf (store : FileStore) : List FilePath → Except Failure (List (FilePath × Template))
  | [] => .ok []
  | path :: rest => do
    let t ← (templateOf path (store.read path)).mapError fun e =>
      (Failure.ofError e).within "Failed to load templates"
    return (path, t) :: (← filesOf store rest)

theorem filesOf_eq_ok_iff
    {paths : List FilePath} {files : List (FilePath × Template)} :
    filesOf store paths = .ok files ↔
      files.map Prod.fst = paths ∧
        ∀ file ∈ files, templateOf file.1 (store.read file.1) = .ok file.2 := by
  induction paths generalizing files with
  | nil =>
      rw [filesOf, Except.ok.injEq, List.map_eq_nil_iff]
      constructor
      · rintro rfl
        exact ⟨rfl, fun file hfile => absurd hfile List.not_mem_nil⟩
      · rintro ⟨rfl, -⟩
        rfl
  | cons path rest ih =>
      simp only [filesOf, bind_eq_ok_iff, mapError_eq_ok_iff]
      constructor
      · rintro ⟨t, ht, files', hfiles, heq⟩
        cases heq
        obtain ⟨rfl, hread⟩ := ih.1 hfiles
        refine ⟨rfl, fun file hfile => ?_⟩
        rcases List.mem_cons.1 hfile with rfl | hfile
        · exact ht
        · exact hread file hfile
      · rintro ⟨hpaths, hread⟩
        cases files with
        | nil => cases hpaths
        | cons file files =>
            rw [List.map_cons, List.cons.injEq] at hpaths
            obtain ⟨rfl, hrest⟩ := hpaths
            exact ⟨file.2, hread file (List.mem_cons_self ..), files,
              ih.2 ⟨hrest, fun file hfile => hread file (List.mem_cons_of_mem _ hfile)⟩, rfl⟩

theorem sameUnderPath_of_loaded
    {files : List (FilePath × Template)}
    (hloaded : ∀ file ∈ files, templateOf file.1 (store.read file.1) = .ok file.2) :
    SameUnderPath files := by
  intro file hfile file' hfile' hpath
  have htemplate := hloaded file hfile
  rw [hpath, hloaded file' hfile'] at htemplate
  exact (Except.ok.inj htemplate).symm

theorem runOn_loadUnits (store : FileStore) (paths : List FilePath) :
    runOn (loadUnits FileStore.access paths) store =
      ((filesOf store paths).map DeclarationUnit.ofFiles, store) := by
  induction paths with
  | nil => rfl
  | cons path rest ih =>
      rw [loadUnits, runOn_bind, runOn_readFile]
      dsimp only
      rw [runOn_attempt_bind, filesOf]
      cases templateOf path (store.read path) with
      | error e => rfl
      | ok t =>
          show runOn (loadUnits FileStore.access rest >>= _) store = _
          rw [runOn_bind, ih]
          cases filesOf store rest with
          | error failure => rfl
          | ok files => rfl

end Loading

section Building

/-- The document that is built from the files under some paths. -/
def builtDocument (store : FileStore) (paths : List FilePath) : Except Failure Document := do
  let t ← Template.merge (DeclarationUnit.ofFiles (← filesOf store paths))
  t.toDocument.mapError Failure.ofError

/-- Hand a text out: print it, or write it under a path. -/
def deliver (store : FileStore) (output : Option FilePath) (text : String) :
    Except Failure Printed × FileStore :=
  match output with
  | none => (.ok (.ofOutput (Text.trimEnd text ++ "\n")), store)
  | some path =>
    match store.write path text.toUTF8.toList with
    | .ok store' => (.ok (.ofOutput ""), store')
    | .error fault => (.error ⟨.file fault, ["Failed to write " ++ path.shown]⟩, store)

theorem runOn_runBuild (store : FileStore) (paths : List FilePath) (output : Option FilePath)
    (isYaml : Bool) :
    runOn (runBuild FileStore.access paths output isYaml) store =
      match builtDocument store paths with
      | .ok d => deliver store output (d.text (if isYaml then .yaml else .json))
      | .error failure => (.error failure, store) := by
  unfold runBuild builtDocument check
  rw [runOn_bind, runOn_loadUnits]
  cases filesOf store paths with
  | error failure => rfl
  | ok files =>
      show runOn (attempt (Template.merge (DeclarationUnit.ofFiles files)) >>= _) store = _
      rw [runOn_attempt_bind]
      cases hmerge : Template.merge (DeclarationUnit.ofFiles files) with
      | error failure => simp [hmerge, Bind.bind, Except.bind]
      | ok t =>
          rw [ok_bind, hmerge, ok_bind]
          dsimp only
          rw [runOn_attempt_bind]
          cases t.toDocument with
          | error e => rfl
          | ok d =>
              cases output with
              | none => rfl
              | some path =>
                  dsimp only [deliver, Except.mapError]
                  rw [runOn_bind, runOn_write]
                  cases store.write path _ with
                  | error fault => rfl
                  | ok store' => rfl

/-- The end of a build: the document is handed out, or there is a failure. -/
def finish (store : FileStore) (output : Option FilePath) (isYaml : Bool)
    (built : Except Failure Document) : Except Failure Printed × FileStore :=
  match built with
  | .ok d => deliver store output (d.text (if isYaml then .yaml else .json))
  | .error failure => (.error failure, store)

theorem run_build (surroundings : Surroundings) (configuration output : Option FilePath)
    (paths : List FilePath) (isYaml : Bool) :
    (Invocation.run FileStore.access surroundings
      ⟨.build paths output isYaml, configuration⟩).run store =
        finish store output isYaml (builtDocument store paths) := by
  show runOn (runBuild FileStore.access paths output isYaml) store = _
  rw [runOn_runBuild]
  cases builtDocument store paths <;> rfl

/-- JSON is printed as it is. -/
theorem finish_json (store : FileStore) (t : Template) (order : List String) :
    finish store none false (.ok ⟨t.toTree order⟩) =
      (.ok (.ofOutput ((Document.mk (t.toTree order)).jsonText ++ "\n")), store) := by
  dsimp only [finish, deliver]
  rw [if_neg (by decide), Document.text, Document.jsonText, Template.toTree,
    Json.trimEnd_pretty_map]

/-- A template that was loaded has the invariants of what is read. -/
theorem readable_of_templateOf
    {path : FilePath} {content : Except FileFault Bytes} {t : Template}
    (h : templateOf path content = .ok t) : t.Readable := by
  obtain ⟨bytes, -, hfile⟩ := bind_eq_ok_iff.1 h
  obtain ⟨tree, htree, hsections⟩ := bind_eq_ok_iff.1 (mapError_eq_ok_iff.1 hfile)
  exact (Template.readable_of_ofTree (Tree.sorted_of_ofBytes htree) hsections).1

/-- The text was printed as it is, on lines of its own, or it was written under
the path. -/
def Delivered (store : FileStore) (output : Option FilePath) (text : String) (printed : Printed)
    (store' : FileStore) : Prop :=
  match output with
  | none => printed = .ofOutput (text ++ "\n") ∧ store' = store
  | some path => printed = .ofOutput "" ∧ store.write path text.toUTF8.toList = .ok store'

theorem delivered_of_deliver
    {output : Option FilePath} {printed : Printed} {t : Template} {order : List String}
    (h : deliver store output (Document.mk (t.toTree order)).jsonText = (.ok printed, store')) :
    Delivered store output (Document.mk (t.toTree order)).jsonText printed store' := by
  unfold deliver at h
  cases output with
  | none =>
      rw [Document.jsonText, Template.toTree, Json.trimEnd_pretty_map] at h
      cases h
      exact ⟨rfl, rfl⟩
  | some path =>
      dsimp only at h
      cases hwrite : store.write path (Document.mk (t.toTree order)).jsonText.toUTF8.toList with
      | error fault =>
          rw [hwrite] at h
          cases h
      | ok written =>
          rw [hwrite] at h
          cases h
          exact ⟨rfl, hwrite⟩

/-- The document of the files under the paths was built, and its text handed
out. -/
structure Built (store : FileStore) (paths : List FilePath) (output : Option FilePath)
    (printed : Printed) (store' : FileStore) (files : List (FilePath × Template)) (t : Template)
    (d : Document) : Prop where
  paths_eq : files.map Prod.fst = paths
  loaded : ∀ file ∈ files, templateOf file.1 (store.read file.1) = .ok file.2
  merged : Template.merge (DeclarationUnit.ofFiles files) = .ok t
  document : t.toDocument = .ok d
  delivered : Delivered store output d.jsonText printed store'

section Success

variable {surroundings : Surroundings} {configuration output : Option FilePath}
variable {paths : List FilePath} {printed : Printed} {files : List (FilePath × Template)}
variable {t : Template} {d : Document}

theorem built_of_run
    (h : (Invocation.run FileStore.access surroundings
      ⟨.build paths output false, configuration⟩).run store = (.ok printed, store')) :
    ∃ files t d, Built store paths output printed store' files t d := by
  replace h : runOn (runBuild FileStore.access paths output false) store =
    (.ok printed, store') := h
  rw [runOn_runBuild] at h
  cases hbuilt : builtDocument store paths with
  | error failure =>
      rw [hbuilt] at h
      cases h
  | ok d =>
      rw [hbuilt] at h
      obtain ⟨files, hfiles, hmerged⟩ := bind_eq_ok_iff.1 hbuilt
      obtain ⟨t, hmerge, hdocument⟩ := bind_eq_ok_iff.1 hmerged
      rw [mapError_eq_ok_iff] at hdocument
      obtain ⟨hpaths, hloaded⟩ := filesOf_eq_ok_iff.1 hfiles
      refine ⟨files, t, d, hpaths, hloaded, hmerge, hdocument, ?_⟩
      obtain ⟨order, -, rfl⟩ := Template.exists_order_of_toDocument hdocument
      exact delivered_of_deliver h

namespace Built

variable (h : Built store paths output printed store' files t d)

include h

theorem builtDocument_eq : builtDocument store paths = .ok d := by
  unfold builtDocument
  rw [filesOf_eq_ok_iff.2 ⟨h.paths_eq, h.loaded⟩, ok_bind, h.merged, ok_bind, h.document]
  rfl

theorem mem_names_resources_iff
    {id : String} :
    id ∈ t.resources.names ↔ ∃ file ∈ files, id ∈ file.2.resources.names := by
  obtain ⟨-, rfl⟩ := Template.merge_eq_ok_iff.1 h.merged
  exact Template.mem_names_resources_combined_iff

theorem exists_of_get?_resources
    {id : String} {r : Resource} (hget : t.resources.get? id = some r) :
    ∃ file ∈ files, file.2.resources.get? id = some r := by
  obtain ⟨-, rfl⟩ := Template.merge_eq_ok_iff.1 h.merged
  exact Template.exists_of_get?_unionAll_map hget

theorem get?_resources_iff
    (halike : AgreeWhereAlike files) {id : String} {r : Resource} :
    t.resources.get? id = some r ↔ ∃ file ∈ files, file.2.resources.get? id = some r := by
  obtain ⟨happart, rfl⟩ := Template.merge_eq_ok_iff.1 h.merged
  exact Template.get?_unionAll_iff (agreeOn_resources happart halike)

theorem agreeWhereAlike
    (htext : ∀ path ∈ paths, path.IsText) : AgreeWhereAlike files := by
  refine agreeWhereAlike_of_isText (sameUnderPath_of_loaded h.loaded) fun file hfile => ?_
  exact htext file.1 (h.paths_eq ▸ List.mem_map_of_mem hfile)

/-- What is read back is the merged template, if its names pass the check. -/
theorem ofBytes_eq
    (hdecodes : d.Decodes .json) :
    Template.ofBytes .json d.jsonText.toUTF8.toList =
      (Template.combined (files.map Prod.snd)).checkNames := by
  obtain ⟨-, rfl⟩ := Template.merge_eq_ok_iff.1 h.merged
  obtain ⟨order, hperm, rfl⟩ := Template.exists_order_of_toDocument h.document
  have hreadable : (Template.combined (files.map Prod.snd)).Readable :=
    Template.readable_combined fun t ht => by
      obtain ⟨file, hfile, rfl⟩ := List.mem_map.1 ht
      exact readable_of_templateOf (h.loaded file hfile)
  exact Template.ofBytes_text_eq hreadable hperm hdecodes

end Built

/-- **A built document is read back unless a name is declared across files.**  The
merged template has a resource of one of the files under every name that a file
has in its resources.  So it has the resources of all files, if files that are
shown alike agree on them, as files do whose paths are texts.  It is what is
read back from the document, or else the document is refused for a name that one
file declares as a parameter or a condition, and another one as something else.
The text of the document is assumed to decode to what was encoded. -/
theorem ofBytes_of_build
    (h : (Invocation.run FileStore.access surroundings
      ⟨.build paths output false, configuration⟩).run store = (.ok printed, store')) :
    ∃ files t d, Built store paths output printed store' files t d ∧
      (∀ id, id ∈ t.resources.names ↔ ∃ file ∈ files, id ∈ file.2.resources.names) ∧
      (∀ id r, t.resources.get? id = some r →
        ∃ file ∈ files, file.2.resources.get? id = some r) ∧
      (AgreeWhereAlike files → ∀ id r, t.resources.get? id = some r ↔
        ∃ file ∈ files, file.2.resources.get? id = some r) ∧
      ((∀ path ∈ paths, path.IsText) → AgreeWhereAlike files) ∧
      (d.Decodes .json →
        match Template.ofBytes .json d.jsonText.toUTF8.toList with
        | .ok found => found = t ∧ ∀ name first second,
            ¬ Template.DeclaredAcross (files.map Prod.snd) name first second
        | .error reason => ∃ name first second,
            Template.DeclaredAcross (files.map Prod.snd) name first second ∧
              reason = .atPath (second.sectionName ++ "." ++ name)
                (.declaredTwice name first second)) := by
  obtain ⟨files, t, d, hbuilt⟩ := built_of_run h
  refine ⟨files, t, d, hbuilt, fun id => hbuilt.mem_names_resources_iff,
    fun id r => hbuilt.exists_of_get?_resources, fun halike id r => hbuilt.get?_resources_iff halike,
    hbuilt.agreeWhereAlike, fun hdecodes => ?_⟩
  have hnames := Template.checkNames_combined (files.map Prod.snd)
  rw [← hbuilt.ofBytes_eq hdecodes, ← (Template.merge_eq_ok_iff.1 hbuilt.merged).2] at hnames
  cases hread : Template.ofBytes .json d.jsonText.toUTF8.toList with
  | ok found =>
      rw [hread] at hnames
      exact hnames
  | error reason =>
      rw [hread] at hnames
      exact hnames

end Success

/-- A build that prints its document. -/
theorem run_build_of_builtDocument
    (surroundings : Surroundings) (configuration : Option FilePath) {paths : List FilePath}
    {t : Template} {order : List String}
    (h : builtDocument store paths = .ok ⟨t.toTree order⟩) :
    (Invocation.run FileStore.access surroundings
      ⟨.build paths none false, configuration⟩).run store =
        (.ok (.ofOutput ((Document.mk (t.toTree order)).jsonText ++ "\n")), store) := by
  rw [run_build, h, finish_json]

theorem ofBytes_jsonText
    {d : Document} (h : d.Decodes .json) :
    Template.ofBytes .json d.jsonText.toUTF8.toList = Template.ofTree d.tree.sort := by
  have htree : Tree.ofBytes .json d.jsonText.toUTF8.toList = .ok d.tree.sort :=
    Document.ofBytes_text h
  rw [Template.ofBytes, htree]
  rfl

/-- The text of a file that declares a parameter. -/
def parameterText : String :=
  "\x7b\"Parameters\":\x7b\"X\":\x7b\"Type\":\"String\"\x7d\x7d\x7d"

/-- The text of a file that declares a resource that refers to it. -/
def referringText : String :=
  "\x7b\"Resources\":\x7b\"R\":\x7b\"Type\":\"T\",\"Properties\":" ++
  "\x7b\"P\":\x7b\"Ref\":\"X\"\x7d\x7d\x7d\x7d\x7d"

/-- The text of a file that declares a resource of the same name. -/
def clashingText : String :=
  "\x7b\"Resources\":\x7b\"X\":\x7b\"Type\":\"T\"\x7d\x7d\x7d"

/-- The file with the parameter, and another one. -/
def parameterAnd (text : String) : FileStore :=
  .ofFiles [("p.json", parameterText.toUTF8.toList), ("r.json", text.toUTF8.toList)]

/-- The parameter and a resource as one template. -/
def withParameter (id : String) (r : Resource) : Template :=
  { Template.ofResources (.ofList [(id, r)]) with
    parameters := .ofList [("X", .ofType "String")] }

/-- The two files with the reference as one template. -/
def referring : Template :=
  withParameter "R" ((Resource.ofType "T").withProperty "P" (.ref "X"))

theorem ofBytes_of_build_referring :
    (Invocation.run FileStore.access ⟨none, "/"⟩
        ⟨.build ["p.json", "r.json"] none false, none⟩).run (parameterAnd referringText) =
      (.ok (.ofOutput ((Document.mk (referring.toTree ["R"])).jsonText ++ "\n")),
        parameterAnd referringText) ∧
      (Document.mk (referring.toTree ["R"])).Decodes .json ∧
      Template.ofBytes .json (Document.mk (referring.toTree ["R"])).jsonText.toUTF8.toList =
        .ok referring ∧
      ∃ files : List (FilePath × Template),
        files.map Prod.fst = (["p.json", "r.json"] : List FilePath) ∧
        ∀ id r, referring.resources.get? id = some r ↔
          ∃ file ∈ files, file.2.resources.get? id = some r := by
  have hdocument : builtDocument (parameterAnd referringText) ["p.json", "r.json"] =
      .ok ⟨referring.toTree ["R"]⟩ := by
    decide +kernel
  have hrun := run_build_of_builtDocument ⟨none, "/"⟩ none hdocument
  have hdecodes : (Document.mk (referring.toTree ["R"])).Decodes .json := by
    show Json.read .refused _ = _
    decide +kernel
  obtain ⟨files, t, d, hbuilt, -, -, hresources, hagree, hread⟩ := ofBytes_of_build hrun
  cases hbuilt.builtDocument_eq.symm.trans hdocument
  have hback : Template.ofBytes .json
      (Document.mk (referring.toTree ["R"])).jsonText.toUTF8.toList = .ok referring := by
    rw [ofBytes_jsonText hdecodes]
    decide +kernel
  replace hread := hread hdecodes
  rw [hback] at hread
  obtain ⟨rfl, -⟩ := hread
  have htext : ∀ path ∈ (["p.json", "r.json"] : List FilePath), path.IsText := by
    intro path hpath
    rcases List.mem_pair.1 hpath with rfl | rfl
    · exact ⟨_, rfl⟩
    · exact ⟨_, rfl⟩
  exact ⟨hrun, hdecodes, hback, files, hbuilt.paths_eq, hresources (hagree htext)⟩

/-- The two files with the same name as one template. -/
def clashing : Template :=
  withParameter "X" (Resource.ofType "T")

/-- A document that was built may be refused: of two files, one declares a
parameter and the other one a resource of the same name. -/
theorem not_forall_built_accepted :
    ¬ ∀ (store store' : FileStore) (surroundings : Surroundings) (configuration : Option FilePath)
      (paths : List FilePath) (output : Option FilePath) (printed : Printed) (d : Document),
      (Invocation.run FileStore.access surroundings
        ⟨.build paths output false, configuration⟩).run store = (.ok printed, store') →
        Delivered store output d.jsonText printed store' → d.Decodes .json →
          ∃ t, Template.ofBytes .json d.jsonText.toUTF8.toList = .ok t := by
  intro h
  have hdocument : builtDocument (parameterAnd clashingText) ["p.json", "r.json"] =
      .ok ⟨clashing.toTree ["X"]⟩ := by
    decide +kernel
  have hdecodes : (Document.mk (clashing.toTree ["X"])).Decodes .json := by
    show Json.read .refused _ = _
    decide +kernel
  have hrefused : Template.ofBytes .json
      (Document.mk (clashing.toTree ["X"])).jsonText.toUTF8.toList =
        .error (.atPath "Resources.X" (.declaredTwice "X" .parameter .resource)) := by
    rw [ofBytes_jsonText hdecodes]
    decide +kernel
  obtain ⟨t, ht⟩ := h _ _ ⟨none, "/"⟩ none _ none _ _
    (run_build_of_builtDocument ⟨none, "/"⟩ none hdocument) ⟨rfl, rfl⟩ hdecodes
  rw [hrefused] at ht
  cases ht

end Building

end Command
end CloudTemplate
