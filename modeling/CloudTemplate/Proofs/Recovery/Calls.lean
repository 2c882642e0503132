import CloudTemplate.Proofs.Graph.Demands
import CloudTemplate.Proofs.Recovery.Patterns

/-!
# What a call of `Fn::Sub` tells

Recovery looks at each call of `Fn::Sub` in the properties of a resource
(`Resource.SubAt`).  It considers those that refer to no resource and not only
to parameters (`Scope.Considers`); of these, a call with a single candidate
makes a dependency, and one with several makes a warning
(`PatternIndex.mem_dependencies_recover_iff`, `PatternIndex.enumerates_warnings`).

The resource that holds a call is no candidate.  So two resources that are known
by the same text do not always stand against a dependency: the call makes one
when its own resource is one of the two
(`PatternIndex.mem_dependencies_of_two_producers`), and resources with the same
name may come to depend on each other
(`PatternIndex.not_forall_dependencies_eq_nil`).
-/

namespace CloudTemplate

/-- A call of `Fn::Sub`, under the path, at a position in a property. -/
def Resource.SubAt (r : Resource) (place : String × List Nat) (path template : String)
    (rest : List Value) : Prop :=
  ∃ value, r.properties.get? place.1 = some value ∧
    value.nodeAt? ("Properties." ++ place.1) place.2 =
      some (path, .apply .sub (.string template :: rest))

namespace Scope

/-- There are placeholders other than pseudo parameters, and all of these are
declared parameters, whether the call binds them or not. -/
def ParameterOnly (scope : Scope) (template : String) : Prop :=
  (∃ p ∈ Placeholder.ofTemplate template, p.name ∉ pseudoParameters) ∧
    ∀ p ∈ Placeholder.ofTemplate template, p.name ∉ pseudoParameters →
      p.name ∈ scope.parameters.names

/-- The call refers to no resource, and not only to parameters. -/
def Considers (scope : Scope) (template : String) (rest : List Value) : Prop :=
  (∀ name ∈ (Value.apply .sub (.string template :: rest)).references.names,
      name ∉ scope.resources.names) ∧
    ¬ scope.ParameterOnly template

end Scope

theorem Value.subTemplate?_eq_some_iff
    {v : Value} {template : String} :
    v.subTemplate? = some template ↔ ∃ rest, v = .apply .sub (.string template :: rest) := by
  constructor
  · intro h
    unfold subTemplate? at h
    split at h
    · next given rest =>
      cases h
      exact ⟨rest, rfl⟩
    · cases h
  · rintro ⟨rest, rfl⟩
    rfl

namespace PatternIndex

variable {settings : RecoverySettings} {resources : ResourceSet} {index : PatternIndex}
variable {scope : Scope} {r : Resource} {rest : List Value} {node : Value}
variable {id path template u v w : String}

section Node

theorem isSkipped_eq_false_iff :
    isSkipped scope (.apply .sub (.string template :: rest)) template = false ↔
      scope.Considers template rest := by
  unfold isSkipped Scope.Considers Scope.ParameterOnly Value.references
  simp only [Bool.or_eq_false_iff, List.any_eq_false, NameSet.mem_names_ofList, List.mem_map,
    Scope.isResource_iff, forall_exists_index, and_imp, forall_apply_eq_imp_iff₂]
  refine and_congr_right fun _ => ?_
  rw [← Bool.not_eq_true, Bool.and_eq_true]
  simp only [Bool.not_eq_true', List.isEmpty_eq_false_iff_exists_mem, List.all_eq_true,
    List.mem_filter, List.mem_map, Scope.isParameter_iff, isPseudoParameter,
    List.contains_eq_mem, decide_eq_false_iff_not]
  refine not_congr (and_congr ?_ ?_)
  · constructor
    · rintro ⟨_, ⟨p, hp, rfl⟩, hpseudo⟩
      exact ⟨p, hp, hpseudo⟩
    · rintro ⟨p, hp, hpseudo⟩
      exact ⟨p.name, ⟨p, hp, rfl⟩, hpseudo⟩
  · constructor
    · intro h p hp hpseudo
      exact (h p.name ⟨⟨p, hp, rfl⟩, hpseudo⟩).resolve_right hpseudo
    · rintro h _ ⟨⟨p, hp, rfl⟩, hpseudo⟩
      exact Or.inl (h p hp hpseudo)

/-- What a node tells, by the number of its candidates. -/
theorem recoverNode_cases (index : PatternIndex) (scope : Scope) (id path : String)
    (node : Value) :
    (index.recoverNode scope id path node = ⟨[], []⟩ ∧
      ∀ template rest, node = .apply .sub (.string template :: rest) →
        scope.Considers template rest → index.candidates template id = []) ∨
    ∃ template rest, node = .apply .sub (.string template :: rest) ∧
      scope.Considers template rest ∧
      ((∃ target, index.candidates template id = [target] ∧
        index.recoverNode scope id path node = ⟨[⟨target, path⟩], []⟩) ∨
      2 ≤ (index.candidates template id).length ∧
        index.recoverNode scope id path node =
          ⟨[], [⟨id, path, template, index.candidates template id⟩]⟩) := by
  unfold recoverNode
  split
  · next hnone =>
    refine Or.inl ⟨rfl, fun template rest heq => ?_⟩
    cases heq
    cases hnone
  · next template hsome =>
    obtain ⟨rest, rfl⟩ := Value.subTemplate?_eq_some_iff.1 hsome
    split_ifs with hskipped
    · refine Or.inl ⟨rfl, fun template' rest' heq hconsiders => ?_⟩
      cases heq
      rw [isSkipped_eq_false_iff.2 hconsiders] at hskipped
      cases hskipped
    · have hconsiders := isSkipped_eq_false_iff.1 (Bool.eq_false_iff.2 hskipped)
      split
      · next hnone =>
        refine Or.inl ⟨rfl, fun template' rest' heq _ => ?_⟩
        cases heq
        exact hnone
      · next target hone =>
        exact Or.inr ⟨template, rest, rfl, hconsiders, Or.inl ⟨target, hone, rfl⟩⟩
      · next hnot hnot' =>
        refine Or.inr ⟨template, rest, rfl, hconsiders, Or.inr ⟨?_, rfl⟩⟩
        match hcandidates : index.candidates template id with
        | [] => exact absurd hcandidates hnot
        | [target] => exact absurd hcandidates (hnot' target)
        | _ :: _ :: _ => simp

/-- A node makes a dependency when it is a call with a single candidate. -/
theorem mem_dependencies_recoverNode_iff
    {dependency : RecoveredDependency} :
    dependency ∈ (index.recoverNode scope id path node).dependencies ↔
      dependency.path = path ∧ ∃ template rest, node = .apply .sub (.string template :: rest) ∧
        scope.Considers template rest ∧ index.candidates template id = [dependency.target] := by
  rcases recoverNode_cases index scope id path node with
    ⟨heq, hnone⟩ | ⟨template, rest, rfl, hconsiders, ⟨target, hone, heq⟩ | ⟨hmany, heq⟩⟩
  · rw [heq]
    refine iff_of_false List.not_mem_nil ?_
    rintro ⟨-, template, rest, hnode, hconsiders, hone⟩
    rw [hnone template rest hnode hconsiders] at hone
    cases hone
  · rw [heq, List.mem_singleton]
    constructor
    · rintro rfl
      exact ⟨rfl, template, rest, rfl, hconsiders, hone⟩
    · rintro ⟨rfl, template', rest', hnode, -, hone'⟩
      cases hnode
      rw [hone, List.cons.injEq] at hone'
      rw [hone'.1]
  · rw [heq]
    refine iff_of_false List.not_mem_nil ?_
    rintro ⟨-, template', rest', hnode, -, hone⟩
    cases hnode
    simp [hone] at hmany

/-- A node makes a warning when it is a call with several candidates. -/
theorem head?_warnings_recoverNode_iff
    {m : AmbiguousMatch} :
    (index.recoverNode scope id path node).warnings.head? = some m ↔
      m.source = id ∧ m.path = path ∧
        ∃ rest, node = .apply .sub (.string m.pattern :: rest) ∧
          scope.Considers m.pattern rest ∧ index.candidates m.pattern id = m.candidates ∧
          2 ≤ m.candidates.length := by
  rcases recoverNode_cases index scope id path node with
    ⟨heq, hnone⟩ | ⟨template, rest, rfl, hconsiders, ⟨target, hone, heq⟩ | ⟨hmany, heq⟩⟩
  · rw [heq]
    refine iff_of_false (by simp) ?_
    rintro ⟨-, -, rest, hnode, hconsiders, hcandidates, hmany⟩
    rw [← hcandidates, hnone _ rest hnode hconsiders] at hmany
    simp at hmany
  · rw [heq]
    refine iff_of_false (by simp) ?_
    rintro ⟨-, -, rest', hnode, -, hcandidates, hmany⟩
    cases hnode
    rw [← hcandidates, hone] at hmany
    simp at hmany
  · rw [heq, List.head?_cons, Option.some.injEq]
    constructor
    · rintro rfl
      exact ⟨rfl, rfl, rest, rfl, hconsiders, rfl, hmany⟩
    · rintro ⟨rfl, rfl, rest', hnode, -, hcandidates, -⟩
      cases hnode
      rw [hcandidates]

theorem toList_head?_warnings_recoverNode :
    (index.recoverNode scope id path node).warnings.head?.toList =
      (index.recoverNode scope id path node).warnings := by
  rcases recoverNode_cases index scope id path node with
    ⟨heq, -⟩ | ⟨template, rest, -, -, ⟨target, -, heq⟩ | ⟨-, heq⟩⟩
  · rw [heq]
    rfl
  · rw [heq]
    rfl
  · rw [heq]
    rfl

theorem recoverNode_of_isEmpty (h : index.isEmpty = true) :
    index.recoverNode scope id path node = ⟨[], []⟩ := by
  rcases recoverNode_cases index scope id path node with
    ⟨heq, -⟩ | ⟨template, rest, -, -, ⟨target, hone, -⟩ | ⟨hmany, -⟩⟩
  · exact heq
  · rw [candidates_eq_nil_of_isEmpty h] at hone
    cases hone
  · rw [candidates_eq_nil_of_isEmpty h] at hmany
    simp at hmany

end Node

section Calls

/-- The nodes in the properties of a resource, with their paths. -/
def nodesOf (r : Resource) : List (String × Value) :=
  r.properties.entries.flatMap fun entry => entry.2.nodes ("Properties." ++ entry.1)

theorem enumerates_nodesOf (r : Resource) :
    Enumerates (Prod.Lex (· < ·) (List.Lex (· < ·)))
      (fun place node => ∃ value, r.properties.get? place.1 = some value ∧
        value.nodeAt? ("Properties." ++ place.1) place.2 = some node)
      (nodesOf r) :=
  Enumerates.entries_flatMap r.properties
    fun entry => entry.2.enumerates_nodes ("Properties." ++ entry.1)

/-- What is recovered from a resource is what its nodes tell, one after the
other. -/
theorem recover_eq (index : PatternIndex) (scope : Scope) (id : String) (r : Resource) :
    index.recover scope id r =
      ⟨(nodesOf r).flatMap fun node => (index.recoverNode scope id node.1 node.2).dependencies,
        (nodesOf r).flatMap fun node => (index.recoverNode scope id node.1 node.2).warnings⟩ := by
  unfold recover
  split_ifs with hempty
  · simp [recoverNode_of_isEmpty hempty]
  · simp only [List.flatMap_map]
    rfl

theorem mem_dependencies_recover_iff
    {dependency : RecoveredDependency} :
    dependency ∈ (index.recover scope id r).dependencies ↔
      ∃ place template rest, r.SubAt place dependency.path template rest ∧
        scope.Considers template rest ∧ index.candidates template id = [dependency.target] := by
  rw [recover_eq, List.mem_flatMap]
  simp only [mem_dependencies_recoverNode_iff, (enumerates_nodesOf r).mem_iff]
  constructor
  · rintro ⟨⟨path, node⟩, ⟨place, value, hvalue, hnode⟩, rfl, template, rest, rfl, hcall⟩
    exact ⟨place, template, rest, ⟨value, hvalue, hnode⟩, hcall⟩
  · rintro ⟨place, template, rest, ⟨value, hvalue, hnode⟩, hcall⟩
    exact ⟨_, ⟨place, value, hvalue, hnode⟩, rfl, template, rest, rfl, hcall⟩

/-- There is one warning for each call with several candidates. -/
theorem enumerates_warnings (index : PatternIndex) (scope : Scope) (id : String) (r : Resource) :
    Enumerates (Prod.Lex (· < ·) (List.Lex (· < ·)))
      (fun place m => m.source = id ∧ ∃ rest, r.SubAt place m.path m.pattern rest ∧
        scope.Considers m.pattern rest ∧ index.candidates m.pattern id = m.candidates ∧
        2 ≤ m.candidates.length)
      (index.recover scope id r).warnings := by
  have hwarnings : (index.recover scope id r).warnings = (nodesOf r).filterMap fun node =>
      (index.recoverNode scope id node.1 node.2).warnings.head? := by
    rw [recover_eq, List.filterMap_eq_flatMap_toList]
    exact List.flatMap_congr fun node _ => toList_head?_warnings_recoverNode.symm
  rw [hwarnings]
  refine ((enumerates_nodesOf r).filterMap _).congr fun place m => ?_
  simp only [head?_warnings_recoverNode_iff]
  constructor
  · rintro ⟨⟨path, node⟩, ⟨value, hvalue, hnode⟩, hsource, rfl, rest, rfl, hcall⟩
    exact ⟨hsource, rest, ⟨value, hvalue, hnode⟩, hcall⟩
  · rintro ⟨hsource, rest, ⟨value, hvalue, hnode⟩, hcall⟩
    exact ⟨_, ⟨value, hvalue, hnode⟩, hsource, rfl, rest, rfl, hcall⟩

end Calls

section Shared

/-- **A call whose template stands for two resources makes a dependency just
when one of them holds the call.**  Recovery has to consider the call, the other
resource is the target, and no third one may be known by the template. -/
theorem mem_dependencies_of_two_producers
    {dependency : RecoveredDependency}
    (hv : resources.Produces settings template v) (hw : resources.Produces settings template w)
    (hne : v ≠ w) :
    dependency ∈ ((ofResources settings resources).recoverNode scope u path
        (.apply .sub (.string template :: rest))).dependencies ↔
      dependency.path = path ∧ scope.Considers template rest ∧ dependency.target ≠ u ∧
        ∀ id, resources.Produces settings template id ↔ id = u ∨ id = dependency.target := by
  rw [mem_dependencies_recoverNode_iff]
  constructor
  · rintro ⟨hpath, template', rest', hcall, hconsiders, hone⟩
    cases hcall
    rw [candidates_eq_singleton_iff] at hone
    have htarget := (hone dependency.target).2 rfl
    -- The two cannot both be the target, so one of them is the resource of the call.
    have hu : resources.Produces settings template u := by
      by_cases hvu : v = u
      · exact hvu ▸ hv
      · by_cases hwu : w = u
        · exact hwu ▸ hw
        · exact absurd (((hone v).1 ⟨hvu, hv⟩).trans ((hone w).1 ⟨hwu, hw⟩).symm) hne
    refine ⟨hpath, hconsiders, htarget.1, fun id => ⟨fun hid => ?_, ?_⟩⟩
    · by_cases heq : id = u
      · exact Or.inl heq
      · exact Or.inr ((hone id).1 ⟨heq, hid⟩)
    · rintro (rfl | rfl)
      · exact hu
      · exact htarget.2
  · rintro ⟨hpath, hconsiders, hnot, honly⟩
    refine ⟨hpath, template, rest, rfl, hconsiders, candidates_eq_singleton_iff.2 fun id => ?_⟩
    rw [honly]
    constructor
    · rintro ⟨hid, heq⟩
      exact heq.resolve_left hid
    · rintro rfl
      exact ⟨hnot, Or.inr rfl⟩

/-- The name of both buckets. -/
def sharedName : String :=
  "$\x7bAWS::StackName\x7d-logs"

/-- A bucket with this name. -/
def sharedBucket : Resource :=
  (Resource.ofType "AWS::S3::Bucket").withProperty "BucketName" (.sub sharedName)

/-- Two buckets that have the same name. -/
def sharedBuckets : ResourceSet :=
  .ofList [("A", sharedBucket), ("B", sharedBucket)]

/-- The scope of the two buckets. -/
def sharedScope : Scope :=
  (Blueprint.ofResources sharedBuckets).scope

theorem produces_sharedBuckets :
    sharedBuckets.Produces .standard sharedName "A" ∧
      sharedBuckets.Produces .standard sharedName "B" :=
  have h : sharedBucket.KnownBy .standard sharedName :=
    ⟨"BucketName", .sub sharedName, sharedName,
      RecoverySettings.nameProperty?_eq_some_iff.1 (by decide +kernel), by decide +kernel, .sub _,
      Or.inl rfl⟩
  ⟨⟨sharedBucket, by decide +kernel, h⟩, ⟨sharedBucket, by decide +kernel, h⟩⟩

/-- The first bucket comes to depend on the second one. -/
theorem mem_dependencies_sharedBuckets :
    ⟨"B", "Properties.BucketName"⟩ ∈ ((ofResources .standard sharedBuckets).recoverNode
      sharedScope "A" "Properties.BucketName" (.sub sharedName)).dependencies := by
  have hnames : ∀ id r, sharedBuckets.get? id = some r → id = "A" ∨ id = "B" := by
    intro id r h
    have hmem := NameTable.mem_names_iff_get?.2 ⟨r, h⟩
    rwa [show sharedBuckets.names = ["A", "B"] by decide +kernel, List.mem_cons,
      List.mem_singleton] at hmem
  refine (mem_dependencies_of_two_producers produces_sharedBuckets.1 produces_sharedBuckets.2
    (by decide)).2 ⟨rfl, isSkipped_eq_false_iff.1 (by decide +kernel), by decide, fun id => ?_⟩
  constructor
  · rintro ⟨r, hr, -⟩
    exact hnames id r hr
  · rintro (rfl | rfl)
    · exact produces_sharedBuckets.1
    · exact produces_sharedBuckets.2

/-- A template that stands for two resources may still make a dependency: each
of two buckets of the same name comes to depend on the other. -/
theorem not_forall_dependencies_eq_nil :
    ¬ ∀ (settings : RecoverySettings) (resources : ResourceSet) (scope : Scope)
      (u : String) (r : Resource) (place : String × List Nat) (path template : String)
      (rest : List Value),
      resources.get? u = some r → r.SubAt place path template rest →
        (∃ v w, v ≠ w ∧ resources.Produces settings template v ∧
          resources.Produces settings template w) →
        ((ofResources settings resources).recoverNode scope u path
          (.apply .sub (.string template :: rest))).dependencies = [] := by
  intro h
  have hnone := h .standard sharedBuckets sharedScope "A" sharedBucket ("BucketName", [])
    "Properties.BucketName" sharedName [] (by decide +kernel)
    ⟨.sub sharedName, by decide +kernel, rfl⟩
    ⟨"A", "B", by decide, produces_sharedBuckets⟩
  revert hnone
  decide +kernel

end Shared

end PatternIndex
end CloudTemplate
