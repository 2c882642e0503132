import CloudTemplate.Proofs.Graph.AdjacencyMap
import CloudTemplate.Proofs.Graph.Recovery
import CloudTemplate.Proofs.Graph.Wiring

/-!
# The insertions that make a graph

The edges of a graph have four sources: the rows of an adjacency map, the
references in the properties of a resource, its explicit dependencies, and what
is recovered from its texts.  Their targets are inserted in this order, some of
them several times.

None of them names a node as its own dependency, or anything but a node: a map
and a blueprint are refused if they do (`ends_of_mem_mapInsertions`,
`ends_of_mem_insertions`), and recovery leaves out the resource of the call
(`ends_of_recovered`).  So a wiring of the insertions has just the edges of the
graph.

Main statement: every graph that is made of insertions is wired in order, and
its queries agree with each other (`wired_of_madeOf`).
-/

namespace CloudTemplate

section FirstKind

variable {β : Type} {u v : String}

theorem firstKind_map_targets (source : String) (targets : List String) (kind : EdgeKind) :
    firstKind (targets.map fun target => (source, target, kind)) u v =
      if source = u ∧ v ∈ targets then some kind else none := by
  induction targets with
  | nil => simp [firstKind]
  | cons head rest ih =>
      rw [List.map_cons, ← List.singleton_append, firstKind_append, ih, firstKind_singleton]
      by_cases hsource : source = u
      · by_cases hhead : head = v
        · simp [hsource, hhead]
        · simp [hsource, hhead, Ne.symm hhead]
      · simp [hsource]

/-- Of the edges that each entry of a table makes, those from one source are
made by its entry. -/
theorem firstKind_flatMap_entries (table : NameTable β)
    {edgesOf : String × β → List (String × String × EdgeKind)}
    (hsource : ∀ entry, ∀ edge ∈ edgesOf entry, edge.1 = entry.1) :
    firstKind (table.entries.flatMap edgesOf) u v =
      (table.get? u).bind fun value => firstKind (edgesOf (u, value)) u v := by
  have hother : ∀ entries : List (String × β), (∀ entry ∈ entries, entry.1 ≠ u) →
      firstKind (entries.flatMap edgesOf) u v = none := by
    intro entries hne
    refine firstKind_eq_none_iff.2 fun edge hedge hends => ?_
    obtain ⟨entry, hentry, hedge⟩ := List.mem_flatMap.1 hedge
    exact hne entry hentry ((hsource entry edge hedge).symm.trans hends.1)
  cases hget : table.get? u with
  | none =>
      refine hother _ fun entry hentry heq => ?_
      subst heq
      exact NameTable.get?_eq_none_iff.1 hget (List.mem_map_of_mem hentry)
  | some value =>
      obtain ⟨before, after, hsplit⟩ :=
        List.append_of_mem (NameTable.get?_eq_some_iff.1 hget)
      have hascending := table.ascending
      rw [hsplit] at hascending ⊢
      obtain ⟨-, hafter, hbefore⟩ := List.pairwise_append.1 hascending
      rw [List.flatMap_append, List.flatMap_cons, firstKind_append, firstKind_append,
        hother before fun entry hentry =>
          (hbefore entry hentry (u, value) (List.mem_cons_self ..)).ne,
        hother after fun entry hentry =>
          ((List.pairwise_cons.1 hafter).1 entry hentry).ne',
        Option.none_or, Option.or_none]
      rfl

end FirstKind

namespace DependencyGraph

variable {a : Adjacency} {u v : String} {kind : EdgeKind}

/-- The insertions that an adjacency map stands for. -/
def mapInsertions (a : Adjacency) : List (String × String × EdgeKind) :=
  (mapEdges a).map fun edge => (edge.1, edge.2, .reference)

theorem mem_mapInsertions_iff :
    (u, v, kind) ∈ mapInsertions a ↔ v ∈ a.row u ∧ kind = .reference := by
  simp only [mapInsertions, List.mem_map, Prod.mk.injEq, Prod.exists, mem_mapEdges_iff]
  constructor
  · rintro ⟨_, _, hmem, rfl, rfl, rfl⟩
    exact ⟨hmem, rfl⟩
  · rintro ⟨hmem, rfl⟩
    exact ⟨u, v, hmem, rfl, rfl, rfl⟩

theorem ends_of_mem_mapInsertions (hloop : a.Loopless) (hground : a.Grounded) :
    ∀ edge ∈ mapInsertions a,
      edge.1 ∈ NameTable.names a ∧ edge.2.1 ∈ NameTable.names a ∧ edge.1 ≠ edge.2.1 := by
  rintro ⟨source, target, kind⟩ hedge
  obtain ⟨hmem, -⟩ := mem_mapInsertions_iff.1 hedge
  refine ⟨Adjacency.mem_names_of_mem_row hmem, hground source target hmem, fun heq => ?_⟩
  exact hloop source ((congrArg (· ∈ a.row source) heq).mpr hmem)

theorem edgeKind?_mapGraph_iff (hloop : a.Loopless) (hground : a.Grounded) :
    (mapGraph a).edgeKind? u v = some kind ↔ v ∈ a.row u ∧ kind = .reference := by
  have hkept : v ∈ a.row u → v ∈ NameTable.names a ∧ v ≠ u := fun hmem =>
    ⟨hground u v hmem, fun heq => hloop u ((congrArg (· ∈ a.row u) heq).mp hmem)⟩
  rw [mapGraph, edgeKind?_ofRows, NameTable.names_map, NameTable.get?_map]
  rw [Adjacency.row] at hkept ⊢
  cases hrow : NameTable.get? a u with
  | none => simp
  | some row =>
      rw [hrow] at hkept
      have hget : (row.map fun _ => EdgeKind.reference).get? v = some kind ↔
          v ∈ row.names ∧ kind = .reference := by
        rw [NameTable.get?_map, NameTable.mem_names_iff_get?, Option.map_eq_some_iff]
        constructor
        · rintro ⟨value, hvalue, rfl⟩
          exact ⟨⟨value, hvalue⟩, rfl⟩
        · rintro ⟨⟨value, hvalue⟩, rfl⟩
          exact ⟨value, hvalue, rfl⟩
      rw [Option.map_some, Option.bind_some, Option.ite_none_right_eq_some, hget]
      exact and_iff_right_of_imp fun hmem => hkept hmem.1

theorem ids_mapGraph (a : Adjacency) : (mapGraph a).ids = NameTable.names a :=
  (ids_ofRows ..).trans (NameTable.names_map ..)

/-- No edge of a map is listed twice, so the first one with given ends is the
one of the graph. -/
theorem firstKind_mapInsertions (hloop : a.Loopless) (hground : a.Grounded) :
    firstKind (mapInsertions a) u v = (mapGraph a).edgeKind? u v := by
  have hsingle : SingleEdges (mapInsertions a) :=
    List.pairwise_map.2 ((pairwise_mapEdges a).imp fun hlt heq => hlt.ne (congrArg toLex heq))
  refine Option.ext fun kind => ?_
  rw [hsingle.firstKind_eq_some_iff, mem_mapInsertions_iff, edgeKind?_mapGraph_iff hloop hground]

end DependencyGraph

namespace Blueprint

variable {b : Blueprint} {g : DependencyGraph} {u v : String}

/-- The insertions for what a resource states: what it refers to, and what it
explicitly depends on. -/
def statedInsertions (b : Blueprint) (entry : String × Resource) :
    List (String × String × EdgeKind) :=
  ((b.targetsOf entry.2 .reference).map fun target => (entry.1, target, .reference)) ++
    (b.targetsOf entry.2 .dependsOn).map fun target => (entry.1, target, .dependsOn)

/-- The insertions for what is recovered from a resource. -/
def recoveredInsertions (entry : String × Recovered) : List (String × String × EdgeKind) :=
  (entry.2.dependencies.map (·.target)).map fun target => (entry.1, target, .recovered)

/-- All insertions: those for what is recovered come last. -/
def insertions (b : Blueprint) : List (String × String × EdgeKind) :=
  b.resources.entries.flatMap b.statedInsertions ++
    b.recovered.entries.flatMap recoveredInsertions

/-- What is recovered from a resource is another resource. -/
theorem ends_of_recovered {more : Recovered} (hmore : b.recovered.get? u = some more)
    (hv : v ∈ more.dependencies.map (·.target)) :
    u ∈ b.resources.names ∧ v ∈ b.resources.names ∧ u ≠ v := by
  rw [recovered] at hmore
  cases hrecovery : b.recovery with
  | none =>
      rw [hrecovery] at hmore
      rw [NameTable.get?_map, Option.map_eq_some_iff] at hmore
      obtain ⟨r, -, rfl⟩ := hmore
      simp at hv
  | some settings =>
      rw [hrecovery] at hmore
      rw [NameTable.get?_mapEntries, Option.map_eq_some_iff] at hmore
      obtain ⟨r, hr, rfl⟩ := hmore
      obtain ⟨dependency, hdependency, rfl⟩ := List.mem_map.1 hv
      obtain ⟨place, template, rest, -, -, hone⟩ :=
        PatternIndex.mem_dependencies_recover_iff.1 hdependency
      obtain ⟨hne, r', hr', -⟩ := (PatternIndex.candidates_eq_singleton_iff.1 hone _).2 rfl
      exact ⟨NameTable.mem_names_iff_get?.2 ⟨r, hr⟩, NameTable.mem_names_iff_get?.2 ⟨r', hr'⟩,
        hne.symm⟩

theorem firstKind_stated :
    firstKind (b.resources.entries.flatMap b.statedInsertions) u v =
      (b.resources.get? u).bind fun r =>
        if v ∈ b.targetsOf r .reference then some .reference
        else if v ∈ b.targetsOf r .dependsOn then some .dependsOn
        else none := by
  have hsource : ∀ entry, ∀ edge ∈ b.statedInsertions entry, edge.1 = entry.1 := by
    intro entry edge hedge
    rcases List.mem_append.1 hedge with hedge | hedge
    · obtain ⟨_, -, rfl⟩ := List.mem_map.1 hedge
      rfl
    · obtain ⟨_, -, rfl⟩ := List.mem_map.1 hedge
      rfl
  rw [firstKind_flatMap_entries _ hsource]
  refine Option.bind_congr fun r _ => ?_
  simp only [statedInsertions, firstKind_append, firstKind_map_targets, true_and]
  split
  · rfl
  · rw [Option.none_or]

theorem firstKind_recovered :
    firstKind (b.recovered.entries.flatMap recoveredInsertions) u v =
      if ∃ more, b.recovered.get? u = some more ∧ v ∈ more.dependencies.map (·.target) then
        some .recovered
      else none := by
  have hsource : ∀ entry, ∀ edge ∈ recoveredInsertions entry, edge.1 = entry.1 := by
    intro entry edge hedge
    obtain ⟨_, -, rfl⟩ := List.mem_map.1 hedge
    rfl
  rw [firstKind_flatMap_entries _ hsource]
  cases b.recovered.get? u with
  | none => simp
  | some more =>
      simp only [Option.bind_some, recoveredInsertions, firstKind_map_targets, true_and,
        Option.some.injEq, exists_eq_left']

variable (hscope : b.scope.resources.names = b.resources.names) (h : b.graph = .ok g)

include hscope h

/-- All insertions join different resources. -/
theorem ends_of_mem_insertions :
    ∀ edge ∈ b.insertions,
      edge.1 ∈ b.resources.names ∧ edge.2.1 ∈ b.resources.names ∧ edge.1 ≠ edge.2.1 := by
  obtain ⟨-, hself, -⟩ := graph_eq_ok_iff.1 h
  have hstated : ∀ u r v, (u, r) ∈ b.resources.entries →
      v ∈ b.scope.resources.names ∧ (r.Mentions v ∨ v ∈ r.dependsOn) →
      u ∈ b.resources.names ∧ v ∈ b.resources.names ∧ u ≠ v := by
    intro u r v hentry hv
    have hr := NameTable.get?_eq_some_iff.2 hentry
    exact ⟨NameTable.mem_names_iff_get?.2 ⟨r, hr⟩, hscope ▸ hv.1,
      (ne_of_targets hscope hself hr hv.2).symm⟩
  intro edge hedge
  rcases List.mem_append.1 hedge with hedge | hedge
  · obtain ⟨⟨u, r⟩, hentry, hedge⟩ := List.mem_flatMap.1 hedge
    rcases List.mem_append.1 hedge with hedge | hedge
    · obtain ⟨v, hv, rfl⟩ := List.mem_map.1 hedge
      exact hstated u r v hentry ((mem_targetsOf_reference_iff.1 hv).imp_right Or.inl)
    · obtain ⟨v, hv, rfl⟩ := List.mem_map.1 hedge
      exact hstated u r v hentry ((mem_targetsOf_dependsOn_iff.1 hv).imp_right Or.inr)
  · obtain ⟨⟨u, more⟩, hentry, hedge⟩ := List.mem_flatMap.1 hedge
    obtain ⟨v, hv, rfl⟩ := List.mem_map.1 hedge
    exact ends_of_recovered (NameTable.get?_eq_some_iff.2 hentry) hv

/-- The first insertion between two resources gives the edge its kind. -/
theorem firstKind_insertions (u v : String) :
    firstKind b.insertions u v = g.edgeKind? u v := by
  rw [insertions, firstKind_append, firstKind_stated, firstKind_recovered]
  have hends : (∃ more, b.recovered.get? u = some more ∧
      v ∈ more.dependencies.map (·.target)) →
      u ∈ b.resources.names ∧ v ∈ b.resources.names ∧ u ≠ v := by
    rintro ⟨more, hmore, hv⟩
    exact ends_of_recovered hmore hv
  cases hr : b.resources.get? u with
  | none =>
      have hnothing := mt hends fun hu => NameTable.get?_eq_none_iff.1 hr hu.1
      rw [edgeKind?_of_get?_eq_none h hr, if_neg hnothing]
      rfl
  | some r =>
      obtain ⟨-, hself, rfl⟩ := graph_eq_ok_iff.1 h
      rw [edgeKind?_soundGraph hscope hself hr, Option.bind_some]
      split
      · rfl
      · split
        · rfl
        · rw [Option.none_or]
          refine if_congr ⟨fun hfound => ⟨?_, hfound⟩, And.right⟩ rfl rfl
          exact (hends hfound).2.imp_right Ne.symm

end Blueprint

/-- The graph is derived by inserting edges between nodes, either from an
adjacency map, or from a blueprint.  References find the resources that the
blueprint has, as they do in a blueprint of resources or of a template, with
more names or with recovery. -/
inductive MadeOf :
    List String → List (String × String × EdgeKind) → DependencyGraph → Prop
  | adjacency {a : Adjacency} {g : DependencyGraph} (h : DependencyGraph.ofMap a = .ok g) :
      MadeOf (NameTable.names a) (DependencyGraph.mapInsertions a) g
  | blueprint {b : Blueprint} {g : DependencyGraph}
      (hscope : b.scope.resources.names = b.resources.names) (h : b.graph = .ok g) :
      MadeOf b.resources.names b.insertions g

namespace DependencyGraph

/-- The queries of a graph agree with each other, and what they say fits an
edge between two different nodes. -/
structure Coherent (g : DependencyGraph) : Prop where
  nodes : ∀ u v, v ∈ g.dependencies u → u ∈ g.ids ∧ v ∈ g.ids
  loopless : ∀ id, id ∉ g.dependencies id
  dependents : ∀ u v, v ∈ g.dependencies u ↔ u ∈ g.dependents v
  kinds : ∀ u v, v ∈ g.dependencies u ↔ ∃ kind, g.edgeKind? u v = some kind
  ascending : ∀ id,
    (g.dependencies id).Pairwise (· < ·) ∧ (g.dependents id).Pairwise (· < ·)
  /-- Every edge is counted once, at either of its ends. -/
  count : g.edgeCount = (g.ids.map fun id => (g.dependencies id).length).sum ∧
    g.edgeCount = (g.ids.map fun id => (g.dependents id).length).sum
  /-- A cycle has several nodes. -/
  singletons : ∀ c ∈ g.components, c.size = 1 → ∀ id ∈ c.names, ¬ g.OnCycle id

variable {g : DependencyGraph} {ids : List String}
variable {insertions : List (String × String × EdgeKind)}

theorem coherent (g : DependencyGraph) : g.Coherent where
  nodes := fun _ _ h => ⟨Edge.source_mem h, Edge.target_mem h⟩
  loopless := fun _ h => Edge.ne h rfl
  dependents := fun _ _ => mem_dependents_iff.symm
  kinds := fun _ _ => mem_dependencies_iff_edgeKind?
  ascending := fun id => ⟨g.pairwise_dependencies id, g.pairwise_dependents id⟩
  count := ⟨g.edgeCount_eq_sum, g.edgeCount_eq_sum_dependents⟩
  singletons := fun _ hc hsize _ hid hcycle => (size_ne_one_iff hc hid).2 hcycle hsize

/-- **A graph that is made by insertions has numbered nodes that correspond to
its ids, no edge from a node to itself, and at most one edge from one node to
another**, whichever library keeps it.  The queries have the answers of the
graph, so they agree with each other, and a component with one member is no
cycle. -/
theorem wired_of_madeOf {γ : Type} {lib : GraphLibrary γ} (laws : lib.Lawful)
    (h : MadeOf ids insertions g) :
    (Wiring.wire lib ids insertions).WellWired lib ∧
      (Wiring.wire lib ids insertions).Represents lib g ∧ g.Coherent := by
  rw [← and_assoc]
  refine ⟨?_, g.coherent⟩
  cases h with
  | @adjacency a _ h =>
      obtain ⟨hloop, hground, rfl⟩ := ofMap_eq_ok_iff.1 h
      exact Wiring.represents_wire laws (ids_mapGraph a)
        (ends_of_mem_mapInsertions hloop hground)
        fun _ _ => firstKind_mapInsertions hloop hground
  | @blueprint b _ hscope h =>
      exact Wiring.represents_wire laws (Blueprint.ids_of_graph h)
        (Blueprint.ends_of_mem_insertions hscope h)
        (Blueprint.firstKind_insertions hscope h)

end DependencyGraph

namespace Blueprint

/-- The name of a bucket of the stack. -/
def stackData : String :=
  "$\x7bAWS::StackName\x7d-data"

/-- A job that names a bucket in a text, and a log twice, by a reference and as
an explicit dependency. -/
def nightly : Blueprint :=
  (ofResources (.ofList
    [("Bucket", (Resource.ofType "AWS::S3::Bucket").withProperty "BucketName" (.sub stackData)),
      ("Job", (((Resource.ofType "T").withProperty "Input" (.sub stackData)).withProperty "Log"
        (.ref "Log")).withDependency "Log"),
      ("Log", Resource.ofType "T")])).withRecovery .standard

/-- The edge that is recovered is inserted after those that are stated, and the
explicit dependency on the log, which is referred to, is refused. -/
theorem wired_nightly :
    nightly.graph = .ok nightly.soundGraph ∧
      nightly.insertions =
        [("Job", "Log", .reference), ("Job", "Log", .dependsOn), ("Job", "Bucket", .recovered)] ∧
      (Wiring.wire .lists nightly.resources.names nightly.insertions).graph.2 =
        [(1, 2, .reference), (1, 0, .recovered)] ∧
      nightly.soundGraph.edgeKind? "Job" "Log" = some .reference ∧
      nightly.soundGraph.edgeKind? "Job" "Bucket" = some .recovered := by
  have hgraph : nightly.graph = .ok nightly.soundGraph :=
    graph_eq_ok_iff.2 ⟨by decide +kernel, by decide +kernel, rfl⟩
  have hscope : nightly.scope.resources.names = nightly.resources.names := by decide +kernel
  have hnames : nightly.resources.names = ["Bucket", "Job", "Log"] := by decide +kernel
  have hinsertions : nightly.insertions =
      [("Job", "Log", .reference), ("Job", "Log", .dependsOn), ("Job", "Bucket", .recovered)] := by
    decide +kernel
  obtain ⟨-, hrepresents, -⟩ :=
    DependencyGraph.wired_of_madeOf GraphLibrary.lawful_lists (.blueprint hscope hgraph)
  have hkind := hrepresents.edgeKind?
  rw [hnames, hinsertions] at hkind
  refine ⟨hgraph, hinsertions, ?_, ?_, ?_⟩
  · rw [hnames, hinsertions]
    decide +kernel
  · rw [← hkind]
    decide +kernel
  · rw [← hkind]
    decide +kernel

end Blueprint
end CloudTemplate
