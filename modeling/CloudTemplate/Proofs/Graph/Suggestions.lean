import CloudTemplate.Proofs.Graph.AdjacencyMap
import CloudTemplate.Proofs.Graph.Blueprint
import CloudTemplate.Proofs.Graph.Faults
import CloudTemplate.Proofs.Text.Distance

/-!
# Names that are suggested

The report on a reference to a missing name suggests up to three names that are
close to it.  Names are ranked by their number of edits, then by their order
(`Scope.Ranks`).

The number of edits counts characters, but it is held against the size in bytes,
so a name may be suggested that has not one character in common with a target
whose characters take several bytes.  Resources and parameters are looked through
one after the other, so a name that is both is suggested twice
(`Scope.not_forall_ranks_suggestions`).

Main statement: what is suggested is ranked first among the names that are close
by the size in bytes, each taken once for every set that has it; where neither of
the two makes a difference, it is ranked first among the names that are close by
the number of characters (`Scope.suggestions_ranked_first`).
-/

namespace CloudTemplate

/-- A character takes at least one byte. -/
theorem Text.length_le_utf8ByteSize (text : String) : text.length ≤ text.utf8ByteSize := by
  rw [← String.utf8Len_toList, ← String.length_toList]
  induction text.toList with
  | nil => exact le_rfl
  | cons c rest ih =>
      have hpos := c.utf8Size_pos
      rw [String.utf8Len_cons, List.length_cons]
      omega

/-- The report is one of those that a blueprint, or a bare adjacency map, with
the scope is refused for. -/
inductive UnresolvedReference.MadeIn : Scope → UnresolvedReference → Prop
  | graph
      {b : Blueprint} {reports : List UnresolvedReference} {report : UnresolvedReference}
      (h : b.graph = .error (.unresolvedReferences reports)) (hreport : report ∈ reports) :
      MadeIn b.scope report
  | ofMap
      {adjacency : Adjacency} {reports : List UnresolvedReference}
      {report : UnresolvedReference}
      (h : DependencyGraph.ofMap adjacency = .error (.unresolvedReferences reports))
      (hreport : report ∈ reports) :
      MadeIn ⟨adjacency.map fun _ => (), .empty, .empty⟩ report

namespace Scope

/-- The sets of names in which a name of the expected kind is looked for.  Pseudo
parameters are in none of them. -/
def pools (scope : Scope) : ExpectedTarget → List NameSet
  | .resource => [scope.resources]
  | .resourceOrParameter => [scope.resources, scope.parameters]
  | .condition => [scope.conditions]

/-- The number of sets that have the name. -/
def poolCount (scope : Scope) (expected : ExpectedTarget) (name : String) : Nat :=
  (scope.pools expected).countP fun pool => pool.contains name

/-- What names are ranked by: the number of edits, then the name. -/
def rankOf (target name : String) : ℕ ×ₗ String :=
  toLex (Text.distance target name, name)

/-- The names are the first three, or all if there are fewer, of the different
names of the expected kind that take edits for at most half of the size, ranked. -/
def Ranks (scope : Scope) (target : String) (expected : ExpectedTarget) (size : Nat)
    (names : List String) : Prop :=
  ∃ ranked : List String, names = ranked.take 3 ∧
    ranked.Pairwise (fun first second => rankOf target first < rankOf target second) ∧
    ∀ name, name ∈ ranked ↔
      (∃ pool ∈ scope.pools expected, name ∈ pool.names) ∧ 2 * Text.distance target name ≤ size

/-- The names of the expected kind with their numbers of edits, in the order in
which they are suggested. -/
def scored (scope : Scope) (target : String) (expected : ExpectedTarget) :
    List (ℕ × String) :=
  ((scope.candidates expected).map fun name => (Text.distance target name, name)).mergeSort
    fun a b => ((compare a.1 b.1).then (compare a.2 b.2)).isLE

/-- Those of them that are close enough.  A name may occur more than once. -/
def ranked (scope : Scope) (target : String) (expected : ExpectedTarget) : List String :=
  ((scope.scored target expected).filter fun entry =>
    entry.1 ≤ target.utf8ByteSize * similarityPercent / 100).map Prod.snd

variable {scope : Scope} {target name : String} {expected : ExpectedTarget}

theorem suggestions_eq_take (scope : Scope) (target : String) (expected : ExpectedTarget) :
    scope.suggestions target expected = (scope.ranked target expected).take 3 :=
  List.map_take ..

theorem candidates_eq (scope : Scope) (expected : ExpectedTarget) :
    scope.candidates expected = (scope.pools expected).flatMap NameTable.names := by
  cases expected <;> simp [candidates, pools]

/-- At most half of the size is fifty percent of it. -/
theorem le_similarityPercent_iff
    {distance size : Nat} : distance ≤ size * similarityPercent / 100 ↔ 2 * distance ≤ size := by
  rw [similarityPercent]
  omega

theorem rankOf_injective (target : String) : Function.Injective (rankOf target) :=
  fun _ _ heq => congrArg (fun rank => (ofLex rank).2) heq

theorem ranked_perm (scope : Scope) (target : String) (expected : ExpectedTarget) :
    (scope.ranked target expected).Perm
      ((scope.candidates expected).filter fun name =>
        2 * Text.distance target name ≤ target.utf8ByteSize) := by
  unfold ranked scored
  refine (((List.mergeSort_perm _ _).filter _).map Prod.snd).trans ?_
  rw [List.filter_map, List.map_map]
  simp only [Function.comp_def, le_similarityPercent_iff, List.map_id']
  exact List.Perm.refl _

theorem toLex_of_mem_scored
    {entry : ℕ × String} (h : entry ∈ scope.scored target expected) :
    toLex entry = rankOf target entry.2 := by
  obtain ⟨name, -, rfl⟩ := List.mem_map.1 (List.mem_mergeSort.1 h)
  rfl

theorem pairwise_ranked (scope : Scope) (target : String) (expected : ExpectedTarget) :
    (scope.ranked target expected).Pairwise fun first second =>
      rankOf target first ≤ rankOf target second := by
  have hscored : (scope.scored target expected).Pairwise fun a b => toLex a ≤ toLex b :=
    pairwise_key_mergeSort toLex
      (fun a b => by rw [isLE_then_iff, isLE_compare_iff, Prod.Lex.toLex_le_toLex]) _
  rw [ranked, List.pairwise_map]
  refine (hscored.imp_of_mem fun ha hb hle => ?_).filter _
  rwa [toLex_of_mem_scored ha, toLex_of_mem_scored hb] at hle

/-- There is one way to rank the names that are close enough. -/
theorem suggestions_eq_of_perm
    (names : List String)
    (hperm : ((scope.candidates expected).filter fun name =>
      2 * Text.distance target name ≤ target.utf8ByteSize).Perm names)
    (hranked : names.Pairwise fun first second =>
      rankOf target first ≤ rankOf target second) :
    scope.suggestions target expected = names.take 3 := by
  have heq : scope.ranked target expected = names :=
    ((scope.ranked_perm target expected).trans hperm).eq_of_pairwise
      (fun _ _ _ _ hle hge => rankOf_injective target (le_antisymm hle hge))
      (scope.pairwise_ranked target expected) hranked
  rw [suggestions_eq_take, heq]

theorem count_candidates (scope : Scope) (expected : ExpectedTarget) (name : String) :
    (scope.candidates expected).count name = scope.poolCount expected name := by
  rw [candidates_eq, poolCount]
  induction scope.pools expected with
  | nil => rfl
  | cons pool pools ih =>
      rw [List.flatMap_cons, List.count_append, ih, List.countP_cons, Nat.add_comm,
        pool.nodup_names.count]
      simp [NameTable.contains_iff]

theorem poolCount_pos_iff :
    0 < scope.poolCount expected name ↔ ∃ pool ∈ scope.pools expected, name ∈ pool.names := by
  rw [poolCount, List.countP_pos_iff]
  simp [NameTable.contains_iff]

theorem count_ranked (scope : Scope) (target : String) (expected : ExpectedTarget)
    (name : String) :
    (scope.ranked target expected).count name =
      if 2 * Text.distance target name ≤ target.utf8ByteSize then scope.poolCount expected name
      else 0 := by
  rw [(scope.ranked_perm target expected).count_eq, ← count_candidates]
  split_ifs with h
  · rw [List.count_filter (by simpa using h)]
  · rw [List.count_eq_zero, List.mem_filter]
    simp [h]

/-- Where names do not occur twice, and no name is close by the size in bytes
only, the suggestions are ranked by the number of characters. -/
theorem ranks_suggestions
    (h : ∀ name, 0 < scope.poolCount expected name →
      2 * Text.distance target name ≤ target.utf8ByteSize →
      2 * Text.distance target name ≤ target.length ∧ scope.poolCount expected name = 1) :
    scope.Ranks target expected target.length (scope.suggestions target expected) := by
  have hclose : ∀ name, name ∈ scope.ranked target expected ↔
      0 < scope.poolCount expected name ∧
        2 * Text.distance target name ≤ target.utf8ByteSize := by
    intro name
    rw [← List.count_pos_iff, count_ranked]
    split_ifs with hle <;> simp [hle]
  have hnodup : (scope.ranked target expected).Nodup := by
    rw [List.nodup_iff_count_le_one]
    intro name
    by_cases hname : name ∈ scope.ranked target expected
    · obtain ⟨hpool, hle⟩ := (hclose name).1 hname
      rw [count_ranked, if_pos hle, (h name hpool hle).2]
    · rw [List.count_eq_zero.2 hname]
      exact Nat.zero_le 1
  refine ⟨_, suggestions_eq_take .., ?_, fun name => ?_⟩
  · refine ((scope.pairwise_ranked target expected).and hnodup).imp fun ⟨hle, hne⟩ => ?_
    exact lt_of_le_of_ne hle ((rankOf_injective target).ne hne)
  · rw [hclose, ← poolCount_pos_iff]
    refine and_congr_right fun hpool => ⟨fun hle => (h name hpool hle).1, fun hle => ?_⟩
    exact hle.trans (Text.length_le_utf8ByteSize target)

/-- A report has the suggestions for its target. -/
theorem suggestions_of_madeIn
    {report : UnresolvedReference} (h : report.MadeIn scope) :
    report.suggestions = scope.suggestions report.target report.expected := by
  cases h with
  | @graph b reports _ hgraph hreport =>
      have hreports : b.unresolved = reports := by
        rcases b.graph_cases with hcase | ⟨id, path, hcase⟩ | hcase <;>
          cases hcase.symm.trans hgraph
        rfl
      obtain ⟨_, source, demand, -, -, hon⟩ :=
        b.enumerates_unresolved.mem_iff.1 (hreports ▸ hreport)
      rw [hon.suggestions_eq, hon.target_eq, hon.expected_eq]
  | @ofMap adjacency reports _ hmap hreport =>
      by_cases hloop : Adjacency.Loopless adjacency
      · rw [DependencyGraph.ofMap_of_loopless hloop] at hmap
        split at hmap
        · cases hmap
        · cases hmap
          obtain ⟨edge, -, rfl⟩ := List.mem_map.1 hreport
          rfl
      · obtain ⟨id, -, -, herror⟩ := DependencyGraph.ofMap_of_not_loopless hloop
        cases herror.symm.trans hmap

/-- **What is suggested is close to the target, the closest first.**  The number
of edits between two names is the least one.  The suggestions are the first three
of the names that take edits for at most half of the bytes of the target, ranked,
where a name occurs once for every set that has it.  Where all of these take edits
for at most half of the characters as well, and each is in one set only, the
suggestions are the first three of the different names that take edits for at most
half of the characters. -/
theorem suggestions_ranked_first (scope : Scope) :
    (∀ target name, IsLeast {n | Text.Edits n target.toList name.toList}
      (Text.distance target name)) ∧
    (∀ report : UnresolvedReference, report.MadeIn scope →
      report.suggestions = scope.suggestions report.target report.expected) ∧
    ∀ target expected,
      (∃ ranked : List String,
        scope.suggestions target expected = ranked.take 3 ∧
          ranked.Pairwise (fun first second => rankOf target first ≤ rankOf target second) ∧
          ∀ name, ranked.count name =
            if 2 * Text.distance target name ≤ target.utf8ByteSize then
              scope.poolCount expected name
            else 0) ∧
      ((∀ name, 0 < scope.poolCount expected name →
          2 * Text.distance target name ≤ target.utf8ByteSize →
          2 * Text.distance target name ≤ target.length ∧
            scope.poolCount expected name = 1) →
        scope.Ranks target expected target.length (scope.suggestions target expected)) :=
  ⟨Text.isLeast_distance, fun _ hreport => suggestions_of_madeIn hreport,
    fun target expected =>
      ⟨⟨scope.ranked target expected, suggestions_eq_take .., scope.pairwise_ranked target expected,
        scope.count_ranked target expected⟩, ranks_suggestions⟩⟩

section Examples

/-- Four resources that rhyme. -/
def rhymes : Scope :=
  ⟨.ofList ["Bat", "Cat", "Hat", "Mat"], .empty, .empty⟩

/-- Of four names at the same distance, the first three are suggested. -/
theorem suggestions_rhymes :
    rhymes.suggestions "Rat" .resource = ["Bat", "Cat", "Hat"] ∧
      rhymes.Ranks "Rat" .resource 3 ["Bat", "Cat", "Hat"] := by
  have hsuggested : rhymes.suggestions "Rat" .resource = ["Bat", "Cat", "Hat"] :=
    suggestions_eq_of_perm ["Bat", "Cat", "Hat", "Mat"] (by decide +kernel)
      (by decide +kernel)
  refine ⟨hsuggested, hsuggested ▸ ((suggestions_ranked_first rhymes).2.2 "Rat" .resource).2 ?_⟩
  exact fun name hpool hle => ⟨hle, Nat.le_antisymm List.countP_le_length hpool⟩

/-- A name may be suggested that is further from the target than half of its
characters, and a name may be suggested twice. -/
theorem not_forall_ranks_suggestions :
    (¬ ∀ (resources : NameSet) (target : String),
      (Scope.mk resources .empty .empty).Ranks target .resource target.length
        ((Scope.mk resources .empty .empty).suggestions target .resource)) ∧
    ¬ ∀ (scope : Scope) (target : String), target.utf8ByteSize = target.length →
      scope.Ranks target .resourceOrParameter target.length
        (scope.suggestions target .resourceOrParameter) := by
  constructor
  · intro h
    obtain ⟨ranked, htake, -, hmem⟩ := h (.ofList ["ab"]) "éé"
    have hsuggested : (Scope.mk (.ofList ["ab"]) .empty .empty).suggestions "éé" .resource =
        ["ab"] := suggestions_eq_of_perm ["ab"] (by decide +kernel) (by decide +kernel)
    have hranked : "ab" ∈ ranked.take 3 := by
      rw [← htake, hsuggested]
      exact List.mem_singleton_self "ab"
    have hfar : ¬ 2 * Text.distance "éé" "ab" ≤ "éé".length := by decide +kernel
    exact hfar ((hmem "ab").1 (List.mem_of_mem_take hranked)).2
  · intro h
    obtain ⟨ranked, htake, hpairwise, -⟩ :=
      h ⟨.ofList ["AB"], .ofList ["AB"], .empty⟩ "AC" (by decide +kernel)
    have hsuggested : (Scope.mk (.ofList ["AB"]) (.ofList ["AB"]) .empty).suggestions "AC"
        .resourceOrParameter = ["AB", "AB"] :=
      suggestions_eq_of_perm ["AB", "AB"] (by decide +kernel) (by decide +kernel)
    have htwice : ["AB", "AB"].Pairwise fun first second =>
        rankOf "AC" first < rankOf "AC" second := by
      rw [← hsuggested, htake]
      exact hpairwise.take
    exact lt_irrefl _ (List.rel_of_pairwise_cons htwice (List.mem_singleton_self "AB"))

end Examples

end Scope
end CloudTemplate
