import CloudTemplate.Graph.Emission
import CloudTemplate.Proofs.Graph.CreationOrder
import CloudTemplate.Proofs.Sorting

/-!
# Graphs and their adjacency maps

The adjacency map of a graph forgets why a node depends on another one.  The
search for components, the order of creation and the order of emission do not
ask for the reasons, so graphs with the same map agree on them
(`components_eq_of_toMap_eq` and its neighbours).

A map makes a graph unless a name lists itself (`Adjacency.Loopless`) or lists
something that is no name of the map (`Adjacency.Grounded`).  Its edges are gone
through in ascending order (`pairwise_mapEdges`), so the reports on what is
missing come in that order, each once.

Main statement: reading a map and taking the map of a graph undo each other
(`ofMap_toMap_faithful`).
-/

namespace CloudTemplate

/-- No name waits for itself. -/
def Adjacency.Loopless (a : Adjacency) : Prop :=
  ∀ id, id ∉ a.row id

namespace DependencyGraph

variable {g g' : DependencyGraph} {a : Adjacency} {u v : String}

section SameMap

variable (h : g.toMap = g'.toMap)

include h

theorem ids_eq_of_toMap_eq : g.ids = g'.ids := by
  rw [← names_toMap, h, names_toMap]

theorem dependencies_eq_of_toMap_eq : g.dependencies = g'.dependencies := by
  rw [← row_toMap, h, row_toMap]

theorem stepCount_eq_of_toMap_eq : Search.stepCount g = Search.stepCount g' := by
  rw [Search.stepCount_eq_sum, Search.stepCount_eq_sum, ids_eq_of_toMap_eq h,
    dependencies_eq_of_toMap_eq h]

theorem step_eq_of_toMap_eq : Search.step g = Search.step g' := by
  have henter : Search.enter g = Search.enter g' := by
    funext s node
    rw [Search.enter, Search.enter, dependencies_eq_of_toMap_eq h]
  funext s
  rw [Search.step, Search.step, henter]

theorem run_eq_of_toMap_eq (steps : Nat) : Search.run g steps = Search.run g' steps := by
  induction steps with
  | zero => rfl
  | succ steps ih =>
      funext s
      rw [Search.run, Search.run, ih, step_eq_of_toMap_eq h]

theorem components_eq_of_toMap_eq : g.components = g'.components := by
  have hvisit : Search.visit g (Search.stepCount g) = Search.visit g' (Search.stepCount g') := by
    funext s root
    rw [Search.visit, Search.visit, stepCount_eq_of_toMap_eq h, run_eq_of_toMap_eq h,
      Search.enter, Search.enter, dependencies_eq_of_toMap_eq h]
  rw [components, components, hvisit, ids_eq_of_toMap_eq h]

theorem creationOrder_eq_of_toMap_eq : g.creationOrder = g'.creationOrder := by
  rw [creationOrder, creationOrder, ensureAcyclic, ensureAcyclic, cycles, cycles,
    components_eq_of_toMap_eq h, h]

theorem inner_eq_of_toMap_eq : EmissionGroup.inner g = EmissionGroup.inner g' := by
  funext members id
  rw [EmissionGroup.inner, EmissionGroup.inner, dependencies_eq_of_toMap_eq h]

theorem forwardOf_eq_of_toMap_eq (order : List String) :
    EmissionGroup.forwardOf g order = EmissionGroup.forwardOf g' order := by
  induction order with
  | nil => rfl
  | cons id later ih =>
      rw [EmissionGroup.forwardOf, EmissionGroup.forwardOf, ih, inner_eq_of_toMap_eq h]

theorem ofMembers_eq_of_toMap_eq (members : List String) :
    EmissionGroup.ofMembers g members = EmissionGroup.ofMembers g' members := by
  rw [EmissionGroup.ofMembers, EmissionGroup.ofMembers, EmissionGroup.arrange,
    EmissionGroup.arrange, inner_eq_of_toMap_eq h, forwardOf_eq_of_toMap_eq h]

theorem condensation_eq_of_toMap_eq (components : List Component) :
    g.condensation components = g'.condensation components := by
  have houter : g.outerDependencies = g'.outerDependencies := by
    funext leaders c
    rw [outerDependencies, outerDependencies, dependencies_eq_of_toMap_eq h]
  rw [condensation, condensation, houter]

theorem emissionOrder_eq_of_toMap_eq : g.emissionOrder = g'.emissionOrder := by
  rw [emissionOrder, emissionOrder, components_eq_of_toMap_eq h, condensation_eq_of_toMap_eq h]
  exact List.map_congr_left fun _ _ => ofMembers_eq_of_toMap_eq h _

end SameMap

section Edges

theorem mem_mapEdges_iff : (u, v) ∈ mapEdges a ↔ v ∈ a.row u := by
  rw [mapEdges, List.mem_flatMap]
  constructor
  · rintro ⟨⟨source, targets⟩, hrow, hedge⟩
    obtain ⟨target, htarget, heq⟩ := List.mem_map.1 hedge
    cases heq
    rw [Adjacency.row, NameTable.get?_eq_some_iff.2 hrow]
    exact htarget
  · intro h
    obtain ⟨targets, hget⟩ := NameTable.mem_names_iff_get?.1 (Adjacency.mem_names_of_mem_row h)
    rw [Adjacency.row, hget] at h
    exact ⟨(u, targets), NameTable.get?_eq_some_iff.1 hget, List.mem_map_of_mem h⟩

/-- The edges come in the order of their sources, those of one source in the
order of their targets. -/
theorem pairwise_mapEdges (a : Adjacency) :
    (mapEdges a).Pairwise fun e f => toLex e < toLex f := by
  rw [mapEdges, List.pairwise_flatMap]
  refine ⟨fun row _ => ?_, (NameTable.ascending a).imp fun hlt e he f hf => ?_⟩
  · rw [List.pairwise_map]
    refine (NameTable.pairwise_names row.2).imp fun {target target'} hlt => ?_
    exact Prod.Lex.toLex_lt_toLex.2 (Or.inr ⟨rfl, hlt⟩)
  · obtain ⟨_, -, rfl⟩ := List.mem_map.1 he
    obtain ⟨_, -, rfl⟩ := List.mem_map.1 hf
    exact Prod.Lex.toLex_lt_toLex.2 (Or.inl hlt)

end Edges

section OfMap

/-- The edges of a map to what is no name of it. -/
def missingEdges (a : Adjacency) : List (String × String) :=
  (mapEdges a).filter fun edge => !(NameTable.map (fun _ => ()) a).contains edge.2

/-- The graph of a map without such edges. -/
def mapGraph (a : Adjacency) : DependencyGraph :=
  ofRows (NameTable.map (fun row => row.map fun _ => .reference) a) .empty []

theorem mem_missingEdges_iff :
    (u, v) ∈ missingEdges a ↔ v ∈ a.row u ∧ v ∉ NameTable.names a := by
  rw [missingEdges, List.mem_filter, mem_mapEdges_iff, Bool.not_eq_true', ← Bool.not_eq_true,
    NameTable.contains_iff, NameTable.names_map]

theorem missingEdges_eq_nil_iff : missingEdges a = [] ↔ a.Grounded := by
  rw [List.eq_nil_iff_forall_not_mem]
  constructor
  · intro h id dep hdep
    by_contra hmissing
    exact h (id, dep) (mem_missingEdges_iff.2 ⟨hdep, hmissing⟩)
  · rintro h ⟨id, dep⟩ hedge
    obtain ⟨hdep, hmissing⟩ := mem_missingEdges_iff.1 hedge
    exact hmissing (h id dep hdep)

theorem find?_loop_eq_none_iff :
    ((mapEdges a).find? fun edge => edge.1 == edge.2) = none ↔ a.Loopless := by
  rw [List.find?_eq_none]
  constructor
  · intro h id hloop
    exact h (id, id) (mem_mapEdges_iff.2 hloop) (beq_self_eq_true id)
  · rintro h ⟨source, target⟩ hedge heq
    cases eq_of_beq heq
    exact h source (mem_mapEdges_iff.1 hedge)

/-- Of the names that list themselves the least one is reported. -/
theorem ofMap_of_not_loopless (h : ¬ a.Loopless) :
    ∃ id, id ∈ a.row id ∧ (∀ other, other ∈ a.row other → id ≤ other) ∧
      ofMap a = .error (.selfReference id mapPath) := by
  obtain ⟨⟨id, target⟩, hfind⟩ := Option.ne_none_iff_exists'.1 (mt find?_loop_eq_none_iff.1 h)
  have hloop := List.find?_some hfind
  cases eq_of_beq hloop
  refine ⟨id, mem_mapEdges_iff.1 (List.mem_of_find?_eq_some hfind), fun other hother => ?_, ?_⟩
  · have hle := key_le_of_find?_eq_some toLex (pairwise_mapEdges a) hfind (other, other)
      (mem_mapEdges_iff.2 hother) (beq_self_eq_true other)
    rcases Prod.Lex.toLex_le_toLex.1 hle with hlt | ⟨heq, -⟩
    · exact hlt.le
    · exact heq.le
  · rw [ofMap, hfind]

/-- Otherwise all that is missing is reported. -/
theorem ofMap_of_loopless (h : a.Loopless) :
    ofMap a = match missingEdges a with
      | [] => .ok (mapGraph a)
      | missing => .error <| .unresolvedReferences <| missing.map fun edge =>
          Scope.report ⟨NameTable.map (fun _ => ()) a, .empty, .empty⟩ edge.1 mapPath edge.2
            .resource := by
  rw [ofMap, find?_loop_eq_none_iff.2 h]
  rfl

theorem ofMap_eq_ok_iff : ofMap a = .ok g ↔ a.Loopless ∧ a.Grounded ∧ g = mapGraph a := by
  by_cases hloop : a.Loopless
  · rw [ofMap_of_loopless hloop, ← missingEdges_eq_nil_iff]
    cases missingEdges a with
    | nil => simp [hloop, eq_comm]
    | cons edge rest => simp
  · obtain ⟨id, -, -, herror⟩ := ofMap_of_not_loopless hloop
    simp [herror, hloop]

/-- No edge of such a map has to be left out. -/
theorem toMap_mapGraph (hloop : a.Loopless) (hgrounded : a.Grounded) :
    (mapGraph a).toMap = a := by
  refine NameTable.ext_get? fun id => ?_
  show NameTable.get? (NameTable.map _ (soundRows _)) id = _
  unfold soundRows
  rw [NameTable.get?_map, NameTable.get?_mapEntries, NameTable.get?_map]
  cases hget : NameTable.get? a id with
  | none => rfl
  | some targets =>
      have hrow : a.row id = targets.names := by rw [Adjacency.row, hget]; rfl
      rw [Option.map_some, Option.map_some, Option.map_some, Option.some.injEq]
      refine NameSet.ext_names fun target => ?_
      rw [NameTable.names_map, soundRow, NameTable.mem_names_filter]
      simp only [NameTable.get?_map, NameTable.names_map, Option.map_eq_some_iff,
        Bool.and_eq_true, List.contains_iff_mem, bne_iff_ne]
      constructor
      · rintro ⟨_, ⟨⟨value, hvalue, rfl⟩, -⟩⟩
        exact NameTable.mem_names_iff_get?.2 ⟨value, hvalue⟩
      · intro htarget
        obtain ⟨value, hvalue⟩ := NameTable.mem_names_iff_get?.1 htarget
        rw [← hrow] at htarget
        exact ⟨_, ⟨value, hvalue, rfl⟩, hgrounded id target htarget,
          fun heq => hloop id (heq ▸ htarget)⟩

theorem loopless_toMap (g : DependencyGraph) : Adjacency.Loopless g.toMap := by
  intro id hloop
  rw [row_toMap] at hloop
  exact Edge.ne hloop rfl

end OfMap

/-- **A map makes a graph just when no name lists itself and every listed name is
a name of the map, and then the map of the graph is the given one.**  Of several
names that list themselves the least one is reported; without such, the reports
are on the edges to missing names, in ascending order and each once.  Every graph
comes back from its map up to the reasons for its edges, with the same
components and the same orders of creation and of emission. -/
theorem ofMap_toMap_faithful :
    (∀ a : Adjacency, (∃ g, ofMap a = .ok g) ↔ a.Loopless ∧ a.Grounded) ∧
    (∀ (a : Adjacency) (g : DependencyGraph), ofMap a = .ok g → g.toMap = a) ∧
    (∀ a : Adjacency, ¬ a.Loopless →
      ∃ id, id ∈ a.row id ∧ (∀ other, other ∈ a.row other → id ≤ other) ∧
        ofMap a = .error (.selfReference id mapPath)) ∧
    (∀ (a : Adjacency) (e : Error), a.Loopless → ofMap a = .error e →
      ∃ missing : List UnresolvedReference,
        e = .unresolvedReferences missing ∧
        (∀ report ∈ missing, report.path = mapPath ∧ report.expected = .resource) ∧
        (missing.Pairwise fun r s => toLex (r.source, r.target) < toLex (s.source, s.target)) ∧
        ∀ source target, (∃ report ∈ missing, report.source = source ∧ report.target = target) ↔
          target ∈ a.row source ∧ target ∉ NameTable.names a) ∧
    ∀ g : DependencyGraph, ∃ copy, ofMap g.toMap = .ok copy ∧ copy.toMap = g.toMap ∧
      copy.components = g.components ∧ copy.creationOrder = g.creationOrder ∧
      copy.emissionOrder = g.emissionOrder := by
  refine ⟨fun a => ?_, fun a g h => ?_, fun a => ofMap_of_not_loopless, fun a e hloop h => ?_,
    fun g => ?_⟩
  · simp only [ofMap_eq_ok_iff, exists_and_left, exists_eq, and_true]
  · obtain ⟨hloop, hgrounded, rfl⟩ := ofMap_eq_ok_iff.1 h
    exact toMap_mapGraph hloop hgrounded
  · rw [ofMap_of_loopless hloop] at h
    cases hmissing : missingEdges a with
    | nil => simp [hmissing] at h
    | cons edge rest =>
        simp only [hmissing, Except.error.injEq] at h
        rw [← hmissing] at h
        refine ⟨_, h.symm, ?_, ?_, fun source target => ?_⟩
        · intro report hreport
          obtain ⟨_, -, rfl⟩ := List.mem_map.1 hreport
          exact ⟨rfl, rfl⟩
        · rw [List.pairwise_map]
          exact (pairwise_mapEdges a).filter _
        · rw [← mem_missingEdges_iff]
          simp [Scope.report]
  · have hloop := g.loopless_toMap
    have hmap := toMap_mapGraph hloop g.grounded_toMap
    exact ⟨mapGraph g.toMap, ofMap_eq_ok_iff.2 ⟨hloop, g.grounded_toMap, rfl⟩, hmap,
      components_eq_of_toMap_eq hmap, creationOrder_eq_of_toMap_eq hmap,
      emissionOrder_eq_of_toMap_eq hmap⟩

end DependencyGraph
end CloudTemplate
