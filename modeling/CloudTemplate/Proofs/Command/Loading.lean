import CloudTemplate.Proofs.Command.Build
import CloudTemplate.Proofs.Registry.Loading

/-!
# Builds of files that are loaded side by side

Files that are shown under two names and share a resource are refused, whatever
the registry holds by then.  If files that are shown alike agree on the
resources that they share, then all files do that are not refused, so all ways
to load them end with the same registry (`Template.mergeLoaded_of_ends`).  The
merge does not depend on the order of the files either, if they have nothing
else of the same name (`Template.merge_eq_of_perm`).

Main statement: what a build prints and writes depends neither on whose turn it
was while such files were loaded, nor on the order of such files
(`Command.run_build_of_ends`).  Files whose paths are texts are such files, and
other files may not be: which of two files that are shown alike has the last
word on a resource is then a matter of whose turn it was
(`Command.not_forall_run_build_of_ends`).
-/

namespace CloudTemplate

variable {files files' : List (FilePath × Template)} {l : Loading}

theorem DeclarationUnit.agree_ofFiles
    (happart : ResourcesApart files) (halike : AgreeWhereAlike files) :
    Agree (ofFiles files) := by
  intro u hu u' hu' entry hentry entry' hentry' hname
  obtain ⟨file, hfile, rfl⟩ := List.mem_map.1 hu
  obtain ⟨file', hfile', rfl⟩ := List.mem_map.1 hu'
  have hget : file.2.resources.get? entry.1 = some entry.2 := NameTable.get?_eq_some_iff.2 hentry
  have hget' : file'.2.resources.get? entry'.1 = some entry'.2 :=
    NameTable.get?_eq_some_iff.2 hentry'
  rw [← hname] at hget'
  have hshown : file.1.shown = file'.1.shown := happart file hfile file' hfile' entry.1
    (NameTable.mem_names_iff_get?.2 ⟨_, hget⟩) (NameTable.mem_names_iff_get?.2 ⟨_, hget'⟩)
  exact ⟨hshown, halike file hfile file' hfile' hshown entry.1 _ _ hget hget'⟩

namespace Template

/-- However the files were loaded, the merge is the same. -/
theorem mergeLoaded_of_ends
    (halike : AgreeWhereAlike files)
    (hends : Loading.Ends (DeclarationUnit.ofFiles files) l) :
    mergeLoaded l.registry ((DeclarationUnit.ofFiles files).map DeclarationUnit.loaded) =
      merge (DeclarationUnit.ofFiles files) := by
  by_cases happart : ResourcesApart files
  · rw [Loading.registry_eq_registerAll (DeclarationUnit.agree_ofFiles happart halike) hends]
    rfl
  · have hshared := mt isEmpty_sharedResources_ofFiles_iff.1 happart
    unfold merge mergeLoaded
    rw [if_neg hshared, if_neg hshared]

/-- The merge does not depend on the order of files whose names are apart. -/
theorem merge_eq_of_perm
    (hperm : files'.Perm files)
    (hsections : ∀ file ∈ files, ∀ file' ∈ files, file.1 ≠ file'.1 →
      SectionsApart file.2 file'.2)
    (hsame : SameUnderPath files) (halike : AgreeWhereAlike files) :
    merge (DeclarationUnit.ofFiles files') = merge (DeclarationUnit.ofFiles files) := by
  by_cases happart : ResourcesApart files
  · have happart' : ResourcesApart files' := fun file hfile file' hfile' =>
      happart file (hperm.mem_iff.1 hfile) file' (hperm.mem_iff.1 hfile')
    rw [merge_eq_ok_iff.2 ⟨happart, rfl⟩]
    exact merge_eq_ok_iff.2
      ⟨happart', (combined_eq_of_perm hperm (agreeOn_resources happart halike) hsections hsame).symm⟩
  · have happart' : ¬ ResourcesApart files' := fun h => happart fun file hfile file' hfile' =>
      h file (hperm.mem_iff.2 hfile) file' (hperm.mem_iff.2 hfile')
    have hunits : ((DeclarationUnit.ofFiles files').map DeclarationUnit.loaded).Perm
        ((DeclarationUnit.ofFiles files).map DeclarationUnit.loaded) := (hperm.map _).map _
    unfold merge mergeLoaded
    rw [if_neg (mt isEmpty_sharedResources_ofFiles_iff.1 happart),
      if_neg (mt isEmpty_sharedResources_ofFiles_iff.1 happart'),
      sharedResources_eq_of_perm hunits]

end Template

namespace Command

variable {store : FileStore}

/-- The document that is built from loaded units, with the registry that they
were loaded into. -/
def documentOf (registry : Registry) (units : List LoadedUnit) : Except Failure Document := do
  let t ← Template.mergeLoaded registry units
  t.toDocument.mapError Failure.ofError

theorem builtDocument_of_loaded
    (hloaded : ∀ file ∈ files, templateOf file.1 (store.read file.1) = .ok file.2) :
    builtDocument store (files.map Prod.fst) =
      (Template.merge (DeclarationUnit.ofFiles files)).bind fun t =>
        t.toDocument.mapError Failure.ofError := by
  unfold builtDocument
  rw [filesOf_eq_ok_iff.2 ⟨rfl, hloaded⟩]
  rfl

/-- **A build does not depend on how its files are loaded.**  Say that files which
are shown alike agree on the resources that they share; so it is with all files
whose paths are texts.  Then whatever way the units of the files make their
calls, the build prints and writes, or fails with, what the merge from the
registry at the end gives.  If the files, but for the same file, have no
parameters, mappings, conditions or outputs of the same name, and at most one
has a description, their order makes no difference either. -/
theorem run_build_of_ends
    (surroundings : Surroundings) (configuration output : Option FilePath) (isYaml : Bool)
    (hloaded : ∀ file ∈ files, templateOf file.1 (store.read file.1) = .ok file.2) :
    ((∀ file ∈ files, file.1.IsText) → AgreeWhereAlike files) ∧
    (AgreeWhereAlike files →
      (∀ l, Loading.Ends (DeclarationUnit.ofFiles files) l →
        (Invocation.run FileStore.access surroundings
            ⟨.build (files.map Prod.fst) output isYaml, configuration⟩).run store =
          finish store output isYaml
            (documentOf l.registry ((DeclarationUnit.ofFiles files).map DeclarationUnit.loaded))) ∧
      ((∀ file ∈ files, ∀ file' ∈ files, file.1 ≠ file'.1 →
          Template.SectionsApart file.2 file'.2) →
        ∀ files' : List (FilePath × Template), files'.Perm files →
          (Invocation.run FileStore.access surroundings
              ⟨.build (files'.map Prod.fst) output isYaml, configuration⟩).run store =
            (Invocation.run FileStore.access surroundings
              ⟨.build (files.map Prod.fst) output isYaml, configuration⟩).run store)) := by
  have hsame : SameUnderPath files := sameUnderPath_of_loaded hloaded
  refine ⟨agreeWhereAlike_of_isText hsame, fun halike => ⟨fun l hends => ?_, ?_⟩⟩
  · rw [run_build, builtDocument_of_loaded hloaded, documentOf,
      Template.mergeLoaded_of_ends halike hends]
    rfl
  · intro hsections files' hperm
    have hloaded' : ∀ file ∈ files', templateOf file.1 (store.read file.1) = .ok file.2 :=
      fun file hfile => hloaded file (hperm.mem_iff.1 hfile)
    rw [run_build, run_build, builtDocument_of_loaded hloaded, builtDocument_of_loaded hloaded',
      Template.merge_eq_of_perm hperm hsections hsame halike]

/-- The text of a file with two resources. -/
def pairText : String :=
  "\x7b\"Resources\":\x7b\"A\":\x7b\"Type\":\"T\"\x7d,\"B\":\x7b\"Type\":\"T\"\x7d\x7d\x7d"

/-- The file with two resources, and one with a parameter and a resource. -/
def pairAndReferring : FileStore :=
  .ofFiles [("pair.json", pairText.toUTF8.toList), ("p.json", parameterText.toUTF8.toList),
    ("r.json", referringText.toUTF8.toList)]

/-- The templates of these files. -/
def pairAndReferringFiles : List (FilePath × Template) :=
  [("pair.json", .ofResources (.ofList [("A", .ofType "T"), ("B", .ofType "T")])),
    ("p.json", { Template.empty with parameters := .ofList [("X", .ofType "String")] }),
    ("r.json", .ofResources (.ofList [("R", (Resource.ofType "T").withProperty "P" (.ref "X"))]))]

/-- The calls of these files, where the unit with the reference has its turn
between the calls of the unit with two resources. -/
def alternatingCalls : List Registry.Call :=
  [.register "A" ⟨"pair.json", "A", .ofType "T"⟩ none,
    .register "R" ⟨"r.json", "R", (Resource.ofType "T").withProperty "P" (.ref "X")⟩ none,
    .register "B" ⟨"pair.json", "B", .ofType "T"⟩ none]

theorem ends_alternatingCalls :
    Loading.Ends (DeclarationUnit.ofFiles pairAndReferringFiles)
      ⟨Registry.empty.performAll alternatingCalls, [[], [], []]⟩ := by
  refine ⟨?_, by simp [Loading.Finished]⟩
  refine .head (.call _ [] _ [_] [[], [_]]) ?_
  refine .head (.call _ [[_], []] _ [] []) ?_
  exact .single (.call _ [] _ [] [[], []])

theorem run_build_alternating :
    (∀ file ∈ pairAndReferringFiles,
        templateOf file.1 (pairAndReferring.read file.1) = .ok file.2) ∧
      (Invocation.run FileStore.access ⟨none, "/"⟩
          ⟨.build ["pair.json", "p.json", "r.json"] none false, none⟩).run pairAndReferring =
        finish pairAndReferring none false
          (documentOf (Registry.empty.performAll alternatingCalls)
            ((DeclarationUnit.ofFiles pairAndReferringFiles).map DeclarationUnit.loaded)) ∧
      (Invocation.run FileStore.access ⟨none, "/"⟩
          ⟨.build ["r.json", "p.json", "pair.json"] none false, none⟩).run pairAndReferring =
        (Invocation.run FileStore.access ⟨none, "/"⟩
          ⟨.build ["pair.json", "p.json", "r.json"] none false, none⟩).run pairAndReferring := by
  have hloaded : ∀ file ∈ pairAndReferringFiles,
      templateOf file.1 (pairAndReferring.read file.1) = .ok file.2 := by
    decide +kernel
  have hsections : ∀ file ∈ pairAndReferringFiles, ∀ file' ∈ pairAndReferringFiles,
      file.1 ≠ file'.1 → Template.SectionsApart file.2 file'.2 := by
    decide +kernel
  have htext : ∀ file ∈ pairAndReferringFiles, file.1.IsText := by
    intro file hfile
    simp only [pairAndReferringFiles, List.mem_cons, List.not_mem_nil, or_false] at hfile
    rcases hfile with rfl | rfl | rfl <;> exact ⟨_, rfl⟩
  obtain ⟨hagree, hbuilds⟩ := run_build_of_ends ⟨none, "/"⟩ none none false hloaded
  obtain ⟨hends, horder⟩ := hbuilds (hagree htext)
  exact ⟨hloaded, hends _ ends_alternatingCalls,
    horder hsections _ (List.reverse_perm pairAndReferringFiles)⟩

/-- The text of a file that declares a resource of a type. -/
def typedText (typeName : String) : String :=
  "\x7b\"Resources\":\x7b\"A\":\x7b\"Type\":\"" ++ typeName ++ "\"\x7d\x7d\x7d"

/-- A path that is no text: a byte that is part of none, and an ending. -/
def unreadablePath (b : UInt8) : FilePath :=
  .append ⟨[b]⟩ ".json"

/-- Two files that are shown alike, with different resources under one name. -/
def shownAlike : FileStore :=
  .ofFiles [(unreadablePath 0xFF, (typedText "T").toUTF8.toList),
    (unreadablePath 0xFE, (typedText "U").toUTF8.toList)]

/-- The template of such a file. -/
def typed (typeName : String) : Template :=
  .ofResources (.ofList [("A", .ofType typeName)])

/-- The templates of these files. -/
def shownAlikeFiles : List (FilePath × Template) :=
  [(unreadablePath 0xFF, typed "T"), (unreadablePath 0xFE, typed "U")]

/-- A way to load these files where the first one has the last word. -/
theorem ends_firstLast :
    Loading.Ends (DeclarationUnit.ofFiles shownAlikeFiles)
      ⟨DeclarationUnit.registerAll .empty (DeclarationUnit.ofFiles shownAlikeFiles.reverse),
        [[], []]⟩ := by
  refine ⟨?_, by simp [Loading.Finished]⟩
  refine .head (.call _ [[_]] _ [] []) ?_
  exact .single (.call _ [] _ [] [[]])

/-- What a build gives may depend on how its files are loaded: of two files that
are shown alike, the one that is loaded last has the last word. -/
theorem not_forall_run_build_of_ends :
    ¬ ∀ (store : FileStore) (surroundings : Surroundings) (configuration output : Option FilePath)
      (isYaml : Bool) (files : List (FilePath × Template)) (l : Loading),
      (∀ file ∈ files, templateOf file.1 (store.read file.1) = .ok file.2) →
        Loading.Ends (DeclarationUnit.ofFiles files) l →
          (Invocation.run FileStore.access surroundings
              ⟨.build (files.map Prod.fst) output isYaml, configuration⟩).run store =
            finish store output isYaml
              (documentOf l.registry
                ((DeclarationUnit.ofFiles files).map DeclarationUnit.loaded)) := by
  intro h
  have hloaded : ∀ file ∈ shownAlikeFiles,
      templateOf file.1 (shownAlike.read file.1) = .ok file.2 := by
    decide +kernel
  have hbuilt : builtDocument shownAlike (shownAlikeFiles.map Prod.fst) =
      .ok ⟨(typed "U").toTree ["A"]⟩ := by
    decide +kernel
  have hfirst : documentOf
      (DeclarationUnit.registerAll .empty (DeclarationUnit.ofFiles shownAlikeFiles.reverse))
      ((DeclarationUnit.ofFiles shownAlikeFiles).map DeclarationUnit.loaded) =
        .ok ⟨(typed "T").toTree ["A"]⟩ := by
    decide +kernel
  have hsame := h shownAlike ⟨none, "/"⟩ none none false shownAlikeFiles _ hloaded ends_firstLast
  rw [run_build, hbuilt, hfirst, finish_json, finish_json] at hsame
  have htext := congrArg Printed.output (Except.ok.inj (congrArg Prod.fst hsame))
  revert htext
  decide +kernel

end Command
end CloudTemplate
