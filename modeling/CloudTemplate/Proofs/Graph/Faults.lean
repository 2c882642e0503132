import Mathlib.Data.String.Basic
import CloudTemplate.Proofs.Graph.Demands
import CloudTemplate.Proofs.Sorting

/-!
# When a template is refused

A graph is refused for references whose targets are not in scope, and
otherwise for a resource that refers to itself.  `Template.ReportAt` and
`Template.SelfReferenceAt` say at which places of a template there is such a
fault, and `UnresolvedReference.IsOn` says field by field what a report tells
about a reference.

Main statement: the reports on references out of scope have one item for each
such place, and a reference of a resource to itself is reported only where
there is none; it is the first one (`Template.graph_refuses_faults`).
-/

namespace CloudTemplate

/-- The names of a template, by what they name. -/
def Template.scope (t : Template) : Scope where
  resources := t.resources.map fun _ => ()
  parameters := t.parameters.map fun _ => ()
  conditions := t.conditions.map fun _ => ()

/-- The report tells what stands where in a source, and asks for what. -/
structure UnresolvedReference.IsOn (report : UnresolvedReference) (scope : Scope)
    (source : String) (demand : Demand) : Prop where
  source_eq : report.source = source
  path_eq : report.path = demand.path
  target_eq : report.target = demand.target
  expected_eq : report.expected = demand.expected
  suggestions_eq : report.suggestions = scope.suggestions demand.target demand.expected

/-- The target of the reference at the place is not in scope, and this is the
report on it. -/
def Template.ReportAt (t : Template) (place : TemplatePlace) (report : UnresolvedReference) :
    Prop :=
  ∃ source demand,
    DemandAt t.resources t.conditions t.outputs place (source, demand) ∧
      ¬ t.scope.Declares demand.expected demand.target ∧
      report.IsOn t.scope source demand

/-- A resource refers to itself at the place, which has the path. -/
def Template.SelfReferenceAt (t : Template) (place : String × ResourcePlace) (path : String) :
    Prop :=
  ∃ r demand, t.resources.get? place.1 = some r ∧ r.DemandAt place.2 demand ∧
    demand.expected ≠ .condition ∧ demand.target = place.1 ∧ demand.path = path

/-- What reports are ordered by: source, path, target and expected kind. -/
def UnresolvedReference.key (r : UnresolvedReference) : String ×ₗ String ×ₗ String ×ₗ Nat :=
  toLex (r.source, toLex (r.path, toLex (r.target, r.expected.rank)))

/-- A report without its suggestions. -/
def UnresolvedReference.bare (r : UnresolvedReference) : UnresolvedReference :=
  { r with suggestions := [] }

theorem ExpectedTarget.rank_injective : Function.Injective rank := by
  intro a b h
  cases a <;> cases b <;> first | rfl | cases h

theorem UnresolvedReference.bare_eq_of_key_eq
    {a b : UnresolvedReference} (h : a.key = b.key) : a.bare = b.bare := by
  simp only [key, toLex_inj, Prod.mk.injEq] at h
  obtain ⟨hsource, hpath, htarget, hrank⟩ := h
  rw [bare, bare, hsource, hpath, htarget, ExpectedTarget.rank_injective hrank]

section Reports

variable {scope : Scope} {source : String} {demand : Demand}

theorem UnresolvedReference.isBefore_iff
    {a b : UnresolvedReference} : a.isBefore b = true ↔ a.key ≤ b.key := by
  unfold isBefore key
  rw [isLE_then_iff, isLE_then_iff, isLE_then_iff, isLE_compare_iff, Prod.Lex.toLex_le_toLex,
    Prod.Lex.toLex_le_toLex, Prod.Lex.toLex_le_toLex]

/-- The report on a demand that is not met. -/
def Scope.reportOf? (scope : Scope) (source : String) (demand : Demand) :
    Option UnresolvedReference :=
  match scope.answer demand.expected demand.target with
  | .missing expected => some (scope.report source demand.path demand.target expected)
  | _ => none

theorem Scope.report_eq_iff
    {report : UnresolvedReference} :
    scope.report source demand.path demand.target demand.expected = report ↔
      report.IsOn scope source demand := by
  constructor
  · rintro rfl
    exact ⟨rfl, rfl, rfl, rfl, rfl⟩
  · intro h
    obtain ⟨reported, path, target, expected, suggestions⟩ := report
    obtain ⟨rfl, rfl, rfl, rfl, rfl⟩ := h
    rfl

theorem Scope.reportOf?_eq_some_iff
    {report : UnresolvedReference} :
    scope.reportOf? source demand = some report ↔
      ¬ scope.Declares demand.expected demand.target ∧ report.IsOn scope source demand := by
  unfold reportOf?
  split
  · next expected hmissing =>
      obtain ⟨rfl, hnot⟩ := answer_eq_missing_iff.1 hmissing
      rw [Option.some.injEq, report_eq_iff, and_iff_right hnot]
  · next hfound =>
      have hdeclares : scope.Declares demand.expected demand.target := by
        by_contra hnot
        exact hfound _ (answer_eq_missing_iff.2 ⟨rfl, hnot⟩)
      refine ⟨fun h => ?_, fun h => absurd hdeclares h.1⟩
      cases h

end Reports

namespace Blueprint

/-- What a loop over the references of a resource collects, it collects from
the demands. -/
theorem filterMap_resolvedSites
    {β : Type} (b : Blueprint) (r : Resource) (f : String → String → Resolution → Option β) :
    ((b.resolvedSites r).filterMap fun found =>
        f found.site.path found.site.target found.resolution) =
      r.demands.filterMap fun demand =>
        f demand.path demand.target (b.scope.answer demand.expected demand.target) := by
  unfold resolvedSites Resource.demands Resource.dependsOnSites
  simp only [List.filterMap_append, List.filterMap_map, Function.comp_def,
    Scope.resolve_eq_answer, List.mapIdx_eq_zipIdx_map, Demand.ofSite]
  rfl

theorem unresolvedOfResource_eq (b : Blueprint) (id : String) (r : Resource) :
    b.unresolvedOfResource id r = r.demands.filterMap (b.scope.reportOf? id) :=
  b.filterMap_resolvedSites r fun path target resolution =>
    match resolution with
    | .missing expected => some (b.scope.report id path target expected)
    | _ => none

theorem unresolvedOf_eq (b : Blueprint) (source : String) (sites : List ReferenceSite) :
    b.unresolvedOf source sites =
      (sites.map Demand.ofSite).filterMap (b.scope.reportOf? source) := by
  unfold unresolvedOf
  simp only [List.filterMap_map, Function.comp_def, Scope.resolve_eq_answer]
  rfl

theorem unresolved_eq (b : Blueprint) :
    b.unresolved =
      UnresolvedReference.sorted
        (b.demands.filterMap fun found => b.scope.reportOf? found.1 found.2) := by
  unfold unresolved demands
  simp only [List.filterMap_append, List.filterMap_flatMap, List.filterMap_map,
    Function.comp_def, unresolvedOfResource_eq, unresolvedOf_eq]

/-- The reports have one item for each reference out of scope. -/
theorem enumerates_unresolved (b : Blueprint) :
    Enumerates (· ≠ ·)
      (fun place report => ∃ source demand,
        DemandAt b.resources b.conditions b.outputs place (source, demand) ∧
          ¬ b.scope.Declares demand.expected demand.target ∧
          report.IsOn b.scope source demand)
      b.unresolved := by
  rw [unresolved_eq]
  refine ((b.enumerates_demands.filterMap _).perm (List.mergeSort_perm ..)).congr
    fun place report => ?_
  simp only [Prod.exists, Scope.reportOf?_eq_some_iff]

theorem pairwise_key_unresolved (b : Blueprint) :
    b.unresolved.Pairwise fun first second => first.key ≤ second.key :=
  pairwise_key_mergeSort UnresolvedReference.key (fun _ _ => UnresolvedReference.isBefore_iff) _

/-- But for suggestions, there is one way to order the reports. -/
theorem map_bare_unresolved_eq
    {b : Blueprint} {reports : List UnresolvedReference}
    (hbare : ∀ report ∈ reports, report.bare = report)
    (hordered : reports.Pairwise fun first second => first.key ≤ second.key)
    (hperm : ((b.demands.filterMap fun found => b.scope.reportOf? found.1 found.2).map
      UnresolvedReference.bare).Perm reports) :
    b.unresolved.map UnresolvedReference.bare = reports := by
  have hsorted : (b.unresolved.map UnresolvedReference.bare).Pairwise
      fun first second => first.key ≤ second.key :=
    List.pairwise_map.2 b.pairwise_key_unresolved
  have hreports : (b.unresolved.map UnresolvedReference.bare).Perm reports := by
    rw [unresolved_eq]
    exact ((List.mergeSort_perm ..).map _).trans hperm
  refine hreports.eq_of_pairwise (fun first second hfirst hsecond hle hge => ?_) hsorted hordered
  obtain ⟨report, -, rfl⟩ := List.mem_map.1 hfirst
  rw [← hbare second hsecond, ← UnresolvedReference.bare_eq_of_key_eq (le_antisymm hle hge)]
  rfl

theorem selfReferences_eq (b : Blueprint) :
    b.selfReferences = b.resources.entries.flatMap fun entry =>
      entry.2.demands.filterMap fun demand =>
        if b.scope.answer demand.expected demand.target = .resource ∧
            demand.target = entry.1 then
          some (entry.1, demand.path)
        else none :=
  List.flatMap_congr fun entry _ => b.filterMap_resolvedSites entry.2
    fun path target resolution =>
      if resolution = .resource ∧ target = entry.1 then some (entry.1, path) else none

/-- References to the own id come in the order of the ids, then of the places. -/
theorem enumerates_selfReferences (b : Blueprint) :
    Enumerates (Prod.Lex (· < ·) ResourcePlace.Before)
      (fun place found => ∃ r, b.resources.get? place.1 = some r ∧
        ∃ demand, r.DemandAt place.2 demand ∧
          (b.scope.answer demand.expected demand.target = .resource ∧
            demand.target = place.1) ∧
          (place.1, demand.path) = found)
      b.selfReferences := by
  rw [selfReferences_eq]
  refine (Enumerates.entries_flatMap b.resources fun entry =>
    entry.2.enumerates_demands.filterMap _).congr fun place found => ?_
  simp only [Option.ite_none_right_eq_some, Option.some.injEq]

section Templates

theorem scope_ofTemplate (t : Template) : (ofTemplate t).scope = t.scope := by
  show Scope.mk _ (NameTable.empty.union _) (NameTable.empty.union _) = _
  rw [NameTable.empty_union, NameTable.empty_union]
  rfl

theorem enumerates_unresolved_ofTemplate (t : Template) :
    Enumerates (· ≠ ·) t.ReportAt (ofTemplate t).unresolved := by
  have h := (ofTemplate t).enumerates_unresolved
  rw [scope_ofTemplate] at h
  exact h

/-- What a resource refers to under its own id is itself. -/
theorem enumerates_selfReferences_ofTemplate (t : Template) :
    Enumerates (Prod.Lex (· < ·) ResourcePlace.Before)
      (fun place found => found.1 = place.1 ∧ t.SelfReferenceAt place found.2)
      (ofTemplate t).selfReferences := by
  refine (ofTemplate t).enumerates_selfReferences.congr fun place found => ?_
  rw [scope_ofTemplate]
  simp only [Scope.answer_eq_resource_iff]
  constructor
  · rintro ⟨r, hr, demand, hdemand, ⟨⟨hexpected, -⟩, htarget⟩, rfl⟩
    exact ⟨rfl, r, demand, hr, hdemand, hexpected, htarget, rfl⟩
  · rintro ⟨hid, r, demand, hr, hdemand, hexpected, htarget, hpath⟩
    have hmem : place.1 ∈ t.scope.resources.names := by
      rw [Template.scope, NameTable.names_map]
      exact NameTable.mem_names_iff_get?.2 ⟨r, hr⟩
    exact ⟨r, hr, demand, hdemand, ⟨⟨hexpected, htarget.symm ▸ hmem⟩, htarget⟩,
      Prod.ext hid.symm hpath⟩

end Templates
end Blueprint

/-- **A template is refused for references out of scope, else for the first
reference of a resource to itself.**  There is one report for each reference
out of scope, in the order of the reports, whether or not resources refer to
themselves.  The first reference of a resource to itself is the first one of
the least such resource. -/
theorem Template.graph_refuses_faults (t : Template) :
    match (Blueprint.ofTemplate t).graph with
    | .error (.unresolvedReferences reports) =>
        (∃ place report, t.ReportAt place report) ∧
          Enumerates (· ≠ ·) t.ReportAt reports ∧
          reports.Pairwise fun first second => first.key ≤ second.key
    | .error (.selfReference id path) =>
        (∀ place report, ¬ t.ReportAt place report) ∧
          ∃ place, t.SelfReferenceAt (id, place) path ∧
            ∀ other path', t.SelfReferenceAt other path' →
              other = (id, place) ∨ Prod.Lex (· < ·) ResourcePlace.Before (id, place) other
    | .error _ => False
    | .ok _ =>
        (∀ place report, ¬ t.ReportAt place report) ∧
          ∀ place path, ¬ t.SelfReferenceAt place path := by
  -- Each list of faults is empty just when there is no place with such a fault.
  have hreports := Blueprint.enumerates_unresolved_ofTemplate t
  have hself := Blueprint.enumerates_selfReferences_ofTemplate t
  unfold Blueprint.graph
  cases hmissing : (Blueprint.ofTemplate t).unresolved with
  | cons first rest =>
      have hordered := (Blueprint.ofTemplate t).pairwise_key_unresolved
      rw [hmissing] at hreports hordered
      obtain ⟨place, hplace⟩ := hreports.mem_iff.1 (List.mem_cons_self ..)
      exact ⟨⟨place, first, hplace⟩, hreports, hordered⟩
  | nil =>
      have hnone := hreports.eq_nil_iff.1 hmissing
      cases hfound : (Blueprint.ofTemplate t).selfReferences with
      | nil =>
          refine ⟨hnone, fun place path hpath => ?_⟩
          exact hself.eq_nil_iff.1 hfound place (place.1, path) ⟨rfl, hpath⟩
      | cons first rest =>
          rw [hfound] at hself
          obtain ⟨place, ⟨hid, hpath⟩, hfirst⟩ := hself.head
          refine ⟨hnone, place.2, hid ▸ hpath, fun other path' hother => ?_⟩
          exact hid ▸ hfirst other (other.1, path') ⟨rfl, hother⟩

/-- A resource with faults of many kinds: two placeholders in one text, the
attribute of a parameter, an explicit dependency and a condition that are not
there, and one on itself. -/
def Resource.faulty : Resource :=
  { ((Resource.ofType "T").withProperty "P" (.sub "$\x7bZ\x7d$\x7bZ\x7d")).withProperty "Q"
      (.attr "X" "Arn") with
    dependsOn := ["A", "N"]
    condition := some "No" }

/-- The template of this resource, with a condition and an output that name what
is not there. -/
def Template.faulty : Template :=
  { Template.ofResources (.ofList [("A", .faulty)]) with
    parameters := .ofList [("X", .ofType "String")]
    conditions := .ofList [("C", .condition "D")]
    outputs := .ofList [("O", ⟨.ref "AWS::Region", none, some (.ref "Z"), none⟩)] }

/-- The reports on this template, without suggestions. -/
def Template.faultyReports : List UnresolvedReference :=
  [⟨"A", "Condition", "No", .condition, []⟩, ⟨"A", "DependsOn[1]", "N", .resource, []⟩,
    ⟨"A", "Properties.P", "Z", .resourceOrParameter, []⟩,
    ⟨"A", "Properties.P", "Z", .resourceOrParameter, []⟩,
    ⟨"A", "Properties.Q", "X", .resource, []⟩, ⟨"C", "Conditions.C", "D", .condition, []⟩,
    ⟨"O", "Export.Name", "Z", .resourceOrParameter, []⟩]

theorem Template.graph_refuses_faulty :
    faulty.SelfReferenceAt ("A", .dependsOn 0) "DependsOn[0]" ∧
      ∃ reports, (Blueprint.ofTemplate faulty).graph = .error (.unresolvedReferences reports) ∧
        reports.map UnresolvedReference.bare = faultyReports ∧
        Enumerates (· ≠ ·) faulty.ReportAt reports := by
  have hself : faulty.SelfReferenceAt ("A", .dependsOn 0) "DependsOn[0]" :=
    ⟨.faulty, ⟨itemPath "DependsOn" 0, "A", .resource⟩, by decide +kernel, .dependsOn rfl,
      by decide, rfl, by decide +kernel⟩
  have hbare : (Blueprint.ofTemplate faulty).unresolved.map UnresolvedReference.bare =
      faultyReports :=
    Blueprint.map_bare_unresolved_eq (by decide +kernel) (by decide +kernel) (by decide +kernel)
  have hfaults := graph_refuses_faults faulty
  unfold Blueprint.graph at hfaults ⊢
  cases hmissing : (Blueprint.ofTemplate faulty).unresolved with
  | nil =>
      rw [hmissing] at hbare
      cases hbare
  | cons first rest =>
      rw [hmissing] at hbare hfaults
      exact ⟨hself, _, rfl, hbare, hfaults.2.1⟩

end CloudTemplate
