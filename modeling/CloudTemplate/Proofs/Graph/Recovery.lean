import CloudTemplate.Proofs.Graph.Edges
import CloudTemplate.Proofs.Recovery.Calls
import Mathlib.Data.List.Lex

/-!
# Graphs with recovered edges

What is recovered comes last: it is looked for only where the references of a
blueprint are in order, and it makes no edge where there is one already.

`Template.Recovers` says which edges are recovered, and `Template.AmbiguousAt`
which calls of `Fn::Sub` are reported instead, both by looking up a call in the
template.  Main statement: with recovery, a template is refused for the same
reason or has the same graph, with the recovered edges added and the reports in
their order (`Template.graph_withRecovery`).
-/

namespace CloudTemplate

namespace Template

/-- A call in the first resource stands for the second one and for no other
resource but perhaps the first one. -/
def Recovers (t : Template) (settings : RecoverySettings) (u v : String) : Prop :=
  settings.enabled = true ∧
    ∃ r place path template rest, t.resources.get? u = some r ∧
      r.SubAt place path template rest ∧ t.scope.Considers template rest ∧
      ∀ w, w ≠ u ∧ t.resources.Produces settings template w ↔ w = v

/-- The call at the place of a resource stands for several others, which the
report lists in ascending order. -/
def AmbiguousAt (t : Template) (settings : RecoverySettings)
    (place : String × String × List Nat) (report : AmbiguousMatch) : Prop :=
  settings.enabled = true ∧ report.source = place.1 ∧
    ∃ r rest, t.resources.get? place.1 = some r ∧
      r.SubAt place.2 report.path report.pattern rest ∧
      t.scope.Considers report.pattern rest ∧
      2 ≤ report.candidates.length ∧ report.candidates.Pairwise (· < ·) ∧
      ∀ w, w ∈ report.candidates ↔ w ≠ place.1 ∧ t.resources.Produces settings report.pattern w

end Template

namespace AmbiguousMatch

/-- What reports are ordered by: source, path, pattern and candidates. -/
def key (m : AmbiguousMatch) : String ×ₗ String ×ₗ String ×ₗ List String :=
  toLex (m.source, toLex (m.path, toLex (m.pattern, m.candidates)))

/-- The part of the key that is looked at. -/
def shortKey (m : AmbiguousMatch) : String ×ₗ String ×ₗ String :=
  toLex (m.source, toLex (m.path, m.pattern))

variable {a b : AmbiguousMatch}

theorem isBefore_iff : a.isBefore b = true ↔ a.shortKey ≤ b.shortKey := by
  unfold isBefore shortKey
  rw [isLE_then_iff, isLE_then_iff, isLE_compare_iff, Prod.Lex.toLex_le_toLex,
    Prod.Lex.toLex_le_toLex]

/-- Candidates decide nothing where source and pattern determine them. -/
theorem key_le_of_shortKey_le
    (h : a.shortKey ≤ b.shortKey)
    (hsame : a.source = b.source → a.pattern = b.pattern → a.candidates = b.candidates) :
    a.key ≤ b.key := by
  unfold shortKey at h
  unfold key
  rw [Prod.Lex.toLex_le_toLex, Prod.Lex.toLex_le_toLex] at h ⊢
  rw [Prod.Lex.toLex_le_toLex]
  refine h.imp_right fun ⟨hsource, h⟩ => ⟨hsource, h.imp_right fun ⟨hpath, hle⟩ => ⟨hpath, ?_⟩⟩
  refine (lt_or_eq_of_le hle).imp_right fun hpattern => ⟨hpattern, ?_⟩
  exact (hsame hsource hpattern).le

end AmbiguousMatch

namespace Blueprint

variable {b : Blueprint} {settings : RecoverySettings} {g g' : DependencyGraph}
variable {r : Resource} {u v : String}

section Found

theorem recovered_withRecovery_of_enabled
    (henabled : settings.enabled = true) :
    (b.withRecovery settings).recovered =
      b.resources.mapEntries ((PatternIndex.ofResources settings b.resources).recover b.scope) := by
  simp [recovered, withRecovery, henabled]

theorem recovered_of_none
    (hnone : b.recovery = none) : b.recovered = b.resources.map fun _ => ⟨[], []⟩ := by
  simp [recovered, hnone]

theorem recovery_withRecovery_of_not_enabled
    (hdisabled : ¬ settings.enabled = true) : (b.withRecovery settings).recovery = none := by
  simp [withRecovery, hdisabled]

/-- What is recovered from a resource. -/
theorem exists_mem_recovered_iff
    (hr : b.resources.get? u = some r) :
    (∃ more, (b.withRecovery settings).recovered.get? u = some more ∧
        v ∈ more.dependencies.map (·.target)) ↔
      settings.enabled = true ∧ ∃ place path template rest,
        r.SubAt place path template rest ∧ b.scope.Considers template rest ∧
          ∀ w, w ≠ u ∧ b.resources.Produces settings template w ↔ w = v := by
  by_cases henabled : settings.enabled = true
  · rw [recovered_withRecovery_of_enabled henabled, NameTable.get?_mapEntries, hr]
    simp only [Option.map_some, Option.some.injEq, exists_eq_left', List.mem_map,
      PatternIndex.mem_dependencies_recover_iff, PatternIndex.candidates_eq_singleton_iff,
      henabled, true_and]
    constructor
    · rintro ⟨dependency, ⟨place, template, rest, hcall, hconsiders, honly⟩, rfl⟩
      exact ⟨place, dependency.path, template, rest, hcall, hconsiders, honly⟩
    · rintro ⟨place, path, template, rest, hcall, hconsiders, honly⟩
      exact ⟨⟨v, path⟩, ⟨place, template, rest, hcall, hconsiders, honly⟩, rfl⟩
  · rw [recovered_of_none (recovery_withRecovery_of_not_enabled henabled), NameTable.get?_map]
    show (∃ more, (b.resources.get? u).map _ = some more ∧ _) ↔ _
    simp [hr, henabled]

/-- There is one report for each call with several candidates. -/
theorem enumerates_warnings_withRecovery (b : Blueprint) (settings : RecoverySettings) :
    Enumerates (· ≠ ·)
      (fun (place : String × String × List Nat) m => settings.enabled = true ∧
        ∃ r, b.resources.get? place.1 = some r ∧ m.source = place.1 ∧
          ∃ rest, r.SubAt place.2 m.path m.pattern rest ∧ b.scope.Considers m.pattern rest ∧
            (PatternIndex.ofResources settings b.resources).candidates m.pattern place.1 =
              m.candidates ∧
            2 ≤ m.candidates.length)
      (b.withRecovery settings).soundGraph.warnings := by
  have hwarnings : (b.withRecovery settings).soundGraph.warnings =
      AmbiguousMatch.sorted ((b.withRecovery settings).recovered.values.flatMap (·.warnings)) := rfl
  rw [hwarnings]
  refine Enumerates.perm ?_ (List.mergeSort_perm ..)
  by_cases henabled : settings.enabled = true
  · rw [recovered_withRecovery_of_enabled henabled]
    have hvalues : ∀ f : String → Resource → Recovered,
        (b.resources.mapEntries f).values.flatMap (·.warnings) =
          b.resources.entries.flatMap fun entry => (f entry.1 entry.2).warnings := by
      intro f
      simp only [NameTable.values, NameTable.mapEntries, Entries.mapEntries, List.flatMap_map]
    rw [hvalues]
    refine ((Enumerates.entries_flatMap b.resources fun entry =>
      (PatternIndex.ofResources settings b.resources).enumerates_warnings b.scope entry.1
        entry.2).mono fun i j hlex => ?_).congr fun place m => ?_
    · exact ne_of_lex hlex (fun _ _ => ne_of_lt) fun _ _ hlex' =>
        ne_of_lex hlex' (fun _ _ => ne_of_lt) fun _ _ hlt heq => List.lt_irrefl _ (heq ▸ hlt)
    · simp only [henabled, true_and]
  · rw [recovered_of_none (recovery_withRecovery_of_not_enabled henabled)]
    have hnone : ((b.withRecovery settings).resources.map
        fun _ => (⟨[], []⟩ : Recovered)).values.flatMap (·.warnings) = [] := by
      refine List.flatMap_eq_nil_iff.2 fun more hmore => ?_
      simp only [NameTable.values, NameTable.map, Entries.mapValues, List.map_map,
        List.mem_map] at hmore
      obtain ⟨entry, -, rfl⟩ := hmore
      rfl
    rw [hnone]
    exact Enumerates.nil fun place m h => henabled h.1

theorem pairwise_key_warnings_withRecovery (b : Blueprint) (settings : RecoverySettings) :
    (b.withRecovery settings).soundGraph.warnings.Pairwise
      fun first second => first.key ≤ second.key := by
  have hmem : ∀ m ∈ (b.withRecovery settings).soundGraph.warnings, _ := fun m =>
    (b.enumerates_warnings_withRecovery settings).mem_iff.1
  refine (pairwise_key_mergeSort AmbiguousMatch.shortKey
    (fun _ _ => AmbiguousMatch.isBefore_iff) _).imp_of_mem fun {m m'} hm hm' hle => ?_
  obtain ⟨place, -, r, -, hplace, rest, -, -, hcandidates, -⟩ := hmem m hm
  obtain ⟨place', -, r', -, hplace', rest', -, -, hcandidates', -⟩ := hmem m' hm'
  refine AmbiguousMatch.key_le_of_shortKey_le hle fun hsource hpattern => ?_
  rw [← hcandidates, ← hcandidates', ← hplace, ← hplace', hsource, hpattern]

end Found

section Graphs

/-- The faults for which a graph is refused do not depend on the recovery. -/
theorem graph_withRecovery_eq (b : Blueprint) (settings : RecoverySettings) :
    (b.withRecovery settings).graph =
      b.graph.map fun _ => (b.withRecovery settings).soundGraph := by
  have hunresolved : (b.withRecovery settings).unresolved = b.unresolved := rfl
  have hself : (b.withRecovery settings).selfReferences = b.selfReferences := rfl
  unfold graph
  rw [hunresolved, hself]
  cases b.unresolved with
  | nil =>
      cases b.selfReferences with
      | nil => rfl
      | cons first rest => rfl
  | cons first rest => rfl

variable (hscope : b.scope.resources.names = b.resources.names)

include hscope in
/-- Recovery makes an edge where there is none. -/
theorem edgeKind?_withRecovery_iff
    (hnone : b.recovery = none) (h : b.graph = .ok g)
    (h' : (b.withRecovery settings).graph = .ok g') (u v : String) (kind : EdgeKind) :
    g'.edgeKind? u v = some kind ↔
      g.edgeKind? u v = some kind ∨
        kind = .recovered ∧ g.edgeKind? u v = none ∧
          settings.enabled = true ∧ ∃ r place path template rest,
            b.resources.get? u = some r ∧ r.SubAt place path template rest ∧
              b.scope.Considers template rest ∧
              ∀ w, w ≠ u ∧ b.resources.Produces settings template w ↔ w = v := by
  cases hr : b.resources.get? u with
  | none =>
      rw [edgeKind?_of_get?_eq_none h hr, edgeKind?_of_get?_eq_none h' hr]
      simp
  | some r =>
      obtain ⟨-, hself, rfl⟩ := graph_eq_ok_iff.1 h'
      have hstated : ∀ kind, (b.withRecovery settings).targetsOf r kind = b.targetsOf r kind :=
        fun _ => rfl
      rw [edgeKind?_soundGraph (b := b.withRecovery settings) hscope hself hr,
        edgeKind?_of_graph hscope hnone h hr, hstated, hstated]
      by_cases hreference : v ∈ b.targetsOf r .reference
      · simp [hreference]
      by_cases hdependsOn : v ∈ b.targetsOf r .dependsOn
      · simp [hreference, hdependsOn]
      rw [if_neg hreference, if_neg hdependsOn, if_neg hreference, if_neg hdependsOn]
      simp only [Option.ite_none_right_eq_some, Option.some.injEq, reduceCtorEq, false_or,
        true_and, exists_mem_recovered_iff hr]
      -- The only candidate is another resource.
      constructor
      · rintro ⟨⟨-, henabled, place, path, template, rest, hcall⟩, rfl⟩
        exact ⟨rfl, henabled, r, place, path, template, rest, rfl, hcall⟩
      · rintro ⟨rfl, henabled, _, place, path, template, rest, rfl, hcall, hconsiders, honly⟩
        obtain ⟨hne, r', hr', -⟩ := (honly v).2 rfl
        exact ⟨⟨⟨NameTable.mem_names_iff_get?.2 ⟨r', hr'⟩, hne⟩, henabled, place, path, template,
          rest, hcall, hconsiders, honly⟩, rfl⟩

end Graphs
end Blueprint

/-- Of two graphs of the template the second one has what recovery adds. -/
structure Template.AddsRecovered (t : Template) (settings : RecoverySettings)
    (g g' : DependencyGraph) : Prop where
  ids : g'.ids = g.ids
  parameters : g'.parameters = g.parameters
  /-- An edge that is there stays as it is; where there is none, one may be recovered. -/
  edges : ∀ u v kind, g'.edgeKind? u v = some kind ↔
    g.edgeKind? u v = some kind ∨
      kind = .recovered ∧ g.edgeKind? u v = none ∧ t.Recovers settings u v
  /-- Only recovery makes edges of its kind. -/
  unrecovered : ∀ u v, g.edgeKind? u v ≠ some .recovered
  /-- None leads back to its resource. -/
  other : ∀ u v, g'.edgeKind? u v = some .recovered → v ≠ u
  /-- There is one report for each ambiguous call. -/
  reports : Enumerates (· ≠ ·) (t.AmbiguousAt settings) g'.warnings
  ordered : g'.warnings.Pairwise fun first second => first.key ≤ second.key

namespace Template

variable {t : Template} {settings : RecoverySettings} {g g' : DependencyGraph}

theorem addsRecovered_of_graph
    (h : (Blueprint.ofTemplate t).graph = .ok g)
    (h' : ((Blueprint.ofTemplate t).withRecovery settings).graph = .ok g') :
    t.AddsRecovered settings g g' := by
  have hscope := Blueprint.scope_ofTemplate t
  have hnames : (Blueprint.ofTemplate t).scope.resources.names = t.resources.names := by
    rw [hscope]
    exact NameTable.names_map ..
  have hedges := Blueprint.edgeKind?_withRecovery_iff hnames rfl h h'
  have hreports := (Blueprint.ofTemplate t).enumerates_warnings_withRecovery settings
  rw [hscope] at hedges hreports
  have hunrecovered : ∀ u v, g.edgeKind? u v ≠ some .recovered := by
    intro u v
    cases hr : t.resources.get? u with
    | none => simp [Blueprint.edgeKind?_of_get?_eq_none h hr]
    | some r =>
        rw [Blueprint.edgeKind?_of_graph hnames rfl h hr]
        split
        · simp
        · split <;> simp
  obtain ⟨-, -, rfl⟩ := Blueprint.graph_eq_ok_iff.1 h'
  exact
    { ids := (Blueprint.ids_of_graph h').trans (Blueprint.ids_of_graph h).symm
      parameters := by
        obtain ⟨-, -, rfl⟩ := Blueprint.graph_eq_ok_iff.1 h
        rfl
      edges := hedges
      unrecovered := hunrecovered
      other := by
        intro u v hkind
        rcases (hedges u v .recovered).1 hkind with
          hkind | ⟨-, -, -, r, place, path, template, rest, -, -, -, honly⟩
        · exact absurd hkind (hunrecovered u v)
        · exact ((honly v).2 rfl).1
      reports := by
        refine hreports.congr fun place m => ?_
        simp only [PatternIndex.candidates_eq_iff]
        constructor
        · rintro ⟨henabled, r, hr, hsource, rest, hcall, hconsiders, ⟨hordered, hmem⟩, hmany⟩
          exact ⟨henabled, hsource, r, rest, hr, hcall, hconsiders, hmany, hordered, hmem⟩
        · rintro ⟨henabled, hsource, r, rest, hr, hcall, hconsiders, hmany, hordered, hmem⟩
          exact ⟨henabled, r, hr, hsource, rest, hcall, hconsiders, ⟨hordered, hmem⟩, hmany⟩
      ordered := (Blueprint.ofTemplate t).pairwise_key_warnings_withRecovery settings }

/-- **With recovery, a template has the same graph with the recovered edges
added, or it is refused for the same reason.** -/
theorem graph_withRecovery (t : Template) (settings : RecoverySettings) :
    match (Blueprint.ofTemplate t).graph,
        ((Blueprint.ofTemplate t).withRecovery settings).graph with
    | .error reason, .error reason' => reason' = reason
    | .ok g, .ok g' => t.AddsRecovered settings g g'
    | _, _ => False := by
  have hgraph := (Blueprint.ofTemplate t).graph_withRecovery_eq settings
  cases h : (Blueprint.ofTemplate t).graph with
  | error reason =>
      rw [h] at hgraph
      rw [hgraph]
      rfl
  | ok g =>
      rw [h] at hgraph
      rw [hgraph]
      exact addsRecovered_of_graph h hgraph

/-- A resource that refers to a queue, and names a bucket and a queue in texts. -/
def reader : Resource :=
  (((Resource.ofType "T").withProperty "Bucket" (.sub (globalArn "s3" "logs"))).withProperty "Name"
    (.sub "jobs")).withProperty "Queue" (.ref "Jobs")

/-- A bucket with a name that is a template, two queues of the same name, and a
resource that names them. -/
def named : Template :=
  ofResources <| .ofList
    [("Jobs", (Resource.ofType "AWS::SQS::Queue").withProperty "QueueName" (.string "jobs")),
      ("Logs", (Resource.ofType "AWS::S3::Bucket").withProperty "BucketName" (.sub "logs")),
      ("Reader", reader),
      ("Tasks", (Resource.ofType "AWS::SQS::Queue").withProperty "QueueName" (.string "jobs"))]

/-- The call in the resource stands for the bucket only. -/
theorem recovers_named : named.Recovers .standard "Reader" "Logs" := by
  refine ⟨rfl, reader, ("Bucket", []), "Properties.Bucket", globalArn "s3" "logs", [],
    by decide +kernel, ⟨_, ?_, rfl⟩, ?_, ?_⟩
  · decide +kernel
  · exact PatternIndex.isSkipped_eq_false_iff.1 (by decide +kernel)
  · exact PatternIndex.candidates_eq_singleton_iff.1 (by decide +kernel)

theorem graph_withRecovery_named :
    ∃ g g', (Blueprint.ofTemplate named).graph = .ok g ∧
      ((Blueprint.ofTemplate named).withRecovery .standard).graph = .ok g' ∧
      named.AddsRecovered .standard g g' ∧
      g.edgeKind? "Reader" "Logs" = none ∧ g'.edgeKind? "Reader" "Logs" = some .recovered ∧
      g'.edgeKind? "Reader" "Jobs" = some .reference ∧
      g'.warnings = [⟨"Reader", "Properties.Name", "jobs", ["Jobs", "Tasks"]⟩] := by
  have hgraph : (Blueprint.ofTemplate named).graph =
      .ok (Blueprint.ofTemplate named).soundGraph :=
    Blueprint.graph_eq_ok_iff.2 ⟨by decide +kernel, by decide +kernel, rfl⟩
  have hgraph' : ((Blueprint.ofTemplate named).withRecovery .standard).graph =
      .ok ((Blueprint.ofTemplate named).withRecovery .standard).soundGraph :=
    Blueprint.graph_eq_ok_iff.2 ⟨by decide +kernel, by decide +kernel, rfl⟩
  have hadds := graph_withRecovery named .standard
  rw [hgraph, hgraph'] at hadds
  have hnone : (Blueprint.ofTemplate named).soundGraph.edgeKind? "Reader" "Logs" = none := by
    decide +kernel
  have hstated : (Blueprint.ofTemplate named).soundGraph.edgeKind? "Reader" "Jobs" =
      some .reference := by
    decide +kernel
  refine ⟨_, _, hgraph, hgraph', hadds, hnone, ?_, ?_, by decide +kernel⟩
  · exact (hadds.edges "Reader" "Logs" .recovered).2 (Or.inr ⟨rfl, hnone, recovers_named⟩)
  · exact (hadds.edges "Reader" "Jobs" .reference).2 (Or.inl hstated)

end Template
end CloudTemplate
