import CloudTemplate.Graph.Blueprint
import CloudTemplate.Proofs.Reference.Position

/-!
# What the references of a template ask for

A reference asks for a resource, for a resource or a parameter, or for a
condition of a certain name (`Demand`), and a scope meets the demand when it
declares such a thing (`Scope.Declares`).

References stand in the properties of resources, in their conditions and
explicit dependencies, in the expressions of conditions, and in the values,
export names and conditions of outputs (`TemplatePlace`).  `DemandAt` says what
the reference at a place asks for, by looking the place up; the loops of a
blueprint come to each such place once (`Blueprint.enumerates_demands`).
-/

namespace CloudTemplate

/-- What a reference has to name. -/
def ReferenceForm.expected : ReferenceForm → ExpectedTarget
  | .attr _ | .placeholder (some _) => .resource
  | .ref | .placeholder none => .resourceOrParameter
  | .condition => .condition

theorem ReferenceForm.expected_ne_condition_iff
    {form : ReferenceForm} : form.expected ≠ .condition ↔ form ≠ .condition := by
  cases form with
  | placeholder attr => cases attr <;> simp [expected]
  | _ => simp [expected]

namespace Scope

/-- The scope has a thing of the expected kind under the name. -/
def Declares (scope : Scope) : ExpectedTarget → String → Prop
  | .resource, name => name ∈ scope.resources.names
  | .resourceOrParameter, name =>
      name ∈ scope.resources.names ∨ name ∈ scope.parameters.names ∨ name ∈ pseudoParameters
  | .condition, name => name ∈ scope.conditions.names

variable {scope : Scope} {name : String} {form : ReferenceForm} {expected : ExpectedTarget}

theorem isResource_iff : scope.isResource name = true ↔ name ∈ scope.resources.names :=
  NameTable.contains_iff

theorem isCondition_iff : scope.isCondition name = true ↔ name ∈ scope.conditions.names :=
  NameTable.contains_iff

theorem isParameter_iff :
    scope.isParameter name = true ↔
      name ∈ scope.parameters.names ∨ name ∈ pseudoParameters := by
  rw [isParameter, Bool.or_eq_true, NameTable.contains_iff, isPseudoParameter_iff]

/-- What a scope has under a name that should be of the expected kind. -/
def answer (scope : Scope) (expected : ExpectedTarget) (name : String) : Resolution :=
  match expected with
  | .resource => if scope.isResource name then .resource else .missing .resource
  | .resourceOrParameter =>
      if scope.isResource name then .resource
      else if scope.isParameter name then .parameter
      else .missing .resourceOrParameter
  | .condition => if scope.isCondition name then .condition else .missing .condition

theorem resolve_eq_answer (scope : Scope) (name : String) (form : ReferenceForm) :
    scope.resolve name form = scope.answer form.expected name := by
  cases form with
  | placeholder attr => cases attr <;> rfl
  | _ => rfl

theorem answer_eq_resource_iff :
    scope.answer expected name = .resource ↔
      expected ≠ .condition ∧ name ∈ scope.resources.names := by
  rw [← isResource_iff]
  cases expected with
  | resource => by_cases h : scope.isResource name <;> simp [answer, h]
  | resourceOrParameter =>
      by_cases h : scope.isResource name <;> by_cases hp : scope.isParameter name <;>
        simp [answer, h, hp]
  | condition => by_cases h : scope.isCondition name <;> simp [answer, h]

theorem answer_eq_parameter_iff :
    scope.answer expected name = .parameter ↔
      expected = .resourceOrParameter ∧ name ∉ scope.resources.names ∧
        (name ∈ scope.parameters.names ∨ name ∈ pseudoParameters) := by
  rw [← isResource_iff, ← isParameter_iff]
  cases expected with
  | resource => by_cases h : scope.isResource name <;> simp [answer, h]
  | resourceOrParameter =>
      by_cases h : scope.isResource name <;> by_cases hp : scope.isParameter name <;>
        simp [answer, h, hp]
  | condition => by_cases h : scope.isCondition name <;> simp [answer, h]

theorem answer_eq_missing_iff {found : ExpectedTarget} :
    scope.answer expected name = .missing found ↔
      found = expected ∧ ¬ scope.Declares expected name := by
  cases expected with
  | resource =>
      rw [Declares, ← isResource_iff]
      by_cases h : scope.isResource name <;> simp [answer, h, eq_comm]
  | resourceOrParameter =>
      rw [Declares, ← isResource_iff, ← isParameter_iff]
      by_cases h : scope.isResource name <;> by_cases hp : scope.isParameter name <;>
        simp [answer, h, hp, eq_comm]
  | condition =>
      rw [Declares, ← isCondition_iff]
      by_cases h : scope.isCondition name <;> simp [answer, h, eq_comm]

end Scope

/-- What a reference asks for, and the path where it stands. -/
structure Demand where
  path : String
  target : String
  expected : ExpectedTarget

/-- The demand of a reference in a value. -/
def Demand.ofSite (site : ReferenceSite) : Demand :=
  ⟨site.path, site.target, site.form.expected⟩

/-- Where a resource refers to something. -/
inductive ResourcePlace where
  /-- In a property, at a place of its value. -/
  | property (name : String) (place : List Nat × Nat)
  | condition
  /-- As an explicit dependency. -/
  | dependsOn (index : Nat)

/-- Properties come in the order of their names, each in document order; then
the condition and the explicit dependencies. -/
inductive ResourcePlace.Before : ResourcePlace → ResourcePlace → Prop
  | property {name name' : String} {place place' : List Nat × Nat}
      (h : Prod.Lex (· < ·) Value.DocumentOrder (name, place) (name', place')) :
      Before (.property name place) (.property name' place')
  | propertyCondition {name : String} {place : List Nat × Nat} :
      Before (.property name place) .condition
  | propertyDependsOn {name : String} {place : List Nat × Nat} {index : Nat} :
      Before (.property name place) (.dependsOn index)
  | conditionDependsOn {index : Nat} : Before .condition (.dependsOn index)
  | dependsOn {index index' : Nat} (h : index < index') :
      Before (.dependsOn index) (.dependsOn index')

/-- Where an output refers to something. -/
inductive OutputPlace where
  | value (place : List Nat × Nat)
  | exportName (place : List Nat × Nat)
  | condition

/-- Where a template refers to something. -/
inductive TemplatePlace where
  | resource (id : String) (place : ResourcePlace)
  /-- In the expression of a condition. -/
  | condition (name : String) (place : List Nat × Nat)
  | output (id : String) (place : OutputPlace)

/-- The reference of a resource at a place. -/
inductive Resource.DemandAt (r : Resource) : ResourcePlace → Demand → Prop
  | property
      {name : String} {value : Value} {place : List Nat × Nat} {site : ReferenceSite}
      (hvalue : r.properties.get? name = some value)
      (hsite : value.SiteAt ("Properties." ++ name) place site) :
      DemandAt r (.property name place) (.ofSite site)
  | condition {name : String} (hname : r.condition = some name) :
      DemandAt r .condition ⟨"Condition", name, .condition⟩
  | dependsOn {index : Nat} {target : String} (htarget : r.dependsOn[index]? = some target) :
      DemandAt r (.dependsOn index) ⟨itemPath "DependsOn" index, target, .resource⟩

/-- The reference of an output at a place. -/
inductive Output.DemandAt (output : Output) : OutputPlace → Demand → Prop
  | value
      {place : List Nat × Nat} {site : ReferenceSite}
      (hsite : output.value.SiteAt "Value" place site) :
      DemandAt output (.value place) (.ofSite site)
  | exportName
      {name : Value} {place : List Nat × Nat} {site : ReferenceSite}
      (hname : output.exportName = some name)
      (hsite : name.SiteAt "Export.Name" place site) :
      DemandAt output (.exportName place) (.ofSite site)
  | condition {name : String} (hname : output.condition = some name) :
      DemandAt output .condition ⟨"Condition", name, .condition⟩

/-- The reference at a place of a template, with the name of the resource, the
condition or the output that holds it. -/
inductive DemandAt
    (resources : ResourceSet) (conditions : NameTable Value) (outputs : NameTable Output) :
    TemplatePlace → String × Demand → Prop
  | resource
      {id : String} {r : Resource} {place : ResourcePlace} {demand : Demand}
      (hresource : resources.get? id = some r) (hdemand : r.DemandAt place demand) :
      DemandAt resources conditions outputs (.resource id place) (id, demand)
  | condition
      {name : String} {value : Value} {place : List Nat × Nat} {site : ReferenceSite}
      (hvalue : conditions.get? name = some value)
      (hsite : value.SiteAt ("Conditions." ++ name) place site) :
      DemandAt resources conditions outputs (.condition name place) (name, .ofSite site)
  | output
      {id : String} {output : Output} {place : OutputPlace} {demand : Demand}
      (houtput : outputs.get? id = some output) (hdemand : output.DemandAt place demand) :
      DemandAt resources conditions outputs (.output id place) (id, demand)

/-- All demands of a resource, in the order of their places. -/
def Resource.demands (r : Resource) : List Demand :=
  (r.propertySites ++ conditionSites r.condition).map Demand.ofSite ++
    r.dependsOn.mapIdx fun index target => ⟨itemPath "DependsOn" index, target, .resource⟩

/-- All demands of a blueprint, each with the name of what holds it. -/
def Blueprint.demands (b : Blueprint) : List (String × Demand) :=
  (b.resources.entries.flatMap fun entry =>
      entry.2.demands.map fun demand => (entry.1, demand)) ++
    (b.conditions.entries.flatMap fun entry =>
      (entry.2.sites ("Conditions." ++ entry.1)).map fun site => (entry.1, .ofSite site)) ++
    b.outputs.entries.flatMap fun entry =>
      (entry.2.sites.map Demand.ofSite).map fun demand => (entry.1, demand)

section Places

theorem Value.DocumentOrder.ne
    {place place' : List Nat × Nat} (h : Value.DocumentOrder place place') :
    place ≠ place' :=
  ne_of_lex h (fun _ _ hlex heq => List.lt_irrefl _ (heq ▸ hlex)) fun _ _ => Nat.ne_of_lt

theorem ResourcePlace.Before.ne
    {place place' : ResourcePlace} (h : place.Before place') : place ≠ place' := by
  rintro rfl
  cases h with
  | property h => exact ne_of_lex h (fun _ _ => ne_of_lt) (fun _ _ => Value.DocumentOrder.ne) rfl
  | dependsOn h => exact Nat.lt_irrefl _ h

theorem Resource.enumerates_propertySites (r : Resource) :
    Enumerates (Prod.Lex (· < ·) Value.DocumentOrder)
      (fun place site => ∃ value, r.properties.get? place.1 = some value ∧
        value.SiteAt ("Properties." ++ place.1) place.2 site)
      r.propertySites :=
  Enumerates.entries_flatMap r.properties
    fun entry => entry.2.enumerates_sites ("Properties." ++ entry.1)

theorem enumerates_conditionSites
    {ι : Type} (before : ι → ι → Prop) (place : ι) (condition : Option String) :
    Enumerates before
      (fun i site => i = place ∧ ∃ name, condition = some name ∧
        site = ⟨"Condition", name, .condition⟩)
      (conditionSites condition) := by
  refine ((Enumerates.toList before place condition).map _).congr fun i site => ?_
  constructor
  · rintro ⟨name, ⟨heq, hname⟩, rfl⟩
    exact ⟨heq, name, hname, rfl⟩
  · rintro ⟨heq, name, hname, rfl⟩
    exact ⟨name, ⟨heq, hname⟩, rfl⟩

theorem Resource.enumerates_demands (r : Resource) :
    Enumerates ResourcePlace.Before r.DemandAt r.demands := by
  have hproperties := r.enumerates_propertySites.rename
    ResourcePlace.Before (fun place => .property place.1 place.2)
    fun place place' h => .property h
  have hcondition := enumerates_conditionSites ResourcePlace.Before .condition r.condition
  have hsites := (hproperties.append hcondition (by
    rintro _ site _ site' ⟨place, rfl, -⟩ ⟨rfl, -⟩
    exact .propertyCondition)).map Demand.ofSite
  have hdependsOn := (Enumerates.mapIdx
    (fun index target => (⟨itemPath "DependsOn" index, target, .resource⟩ : Demand))
    r.dependsOn).rename ResourcePlace.Before .dependsOn
    fun index index' h => .dependsOn h
  refine (hsites.append hdependsOn ?_).congr fun place demand => ?_
  · rintro _ demand _ demand' ⟨site, ⟨place, rfl, -⟩ | ⟨rfl, -⟩, -⟩ ⟨index, rfl, -⟩
    · exact .propertyDependsOn
    · exact .conditionDependsOn
  · constructor
    · rintro (⟨site, ⟨place, rfl, value, hvalue, hsite⟩ | ⟨rfl, name, hname, rfl⟩, rfl⟩ |
        ⟨index, rfl, target, htarget, rfl⟩)
      · exact .property hvalue hsite
      · exact .condition hname
      · exact .dependsOn htarget
    · intro h
      cases h with
      | property hvalue hsite =>
          exact Or.inl ⟨_, Or.inl ⟨(_, _), rfl, _, hvalue, hsite⟩, rfl⟩
      | condition hname => exact Or.inl ⟨_, Or.inr ⟨rfl, _, hname, rfl⟩, rfl⟩
      | dependsOn htarget => exact Or.inr ⟨_, rfl, _, htarget, rfl⟩

theorem Output.enumerates_demands (output : Output) :
    Enumerates (· ≠ ·) output.DemandAt (output.sites.map Demand.ofSite) := by
  have hvalue := (output.value.enumerates_sites "Value").rename (· ≠ ·)
    OutputPlace.value fun place place' h heq => h.ne (OutputPlace.value.inj heq)
  have hname := ((Enumerates.toList (· ≠ ·) () output.exportName).flatMap
    fun name _ => name.enumerates_sites "Export.Name").rename (· ≠ ·)
    (fun place => OutputPlace.exportName place.2) fun place place' h heq => by
      cases h with
      | left _ _ hne => exact hne rfl
      | right _ hplace => exact hplace.ne (OutputPlace.exportName.inj heq)
  have hcondition := enumerates_conditionSites (· ≠ ·) OutputPlace.condition output.condition
  have hsites := ((hvalue.append hname (by
    rintro _ site _ site' ⟨place, rfl, -⟩ ⟨place', rfl, -⟩ heq
    cases heq)).append hcondition (by
    rintro _ site _ site' (⟨place, rfl, -⟩ | ⟨place, rfl, -⟩) ⟨rfl, -⟩ heq
    · cases heq
    · cases heq)).map Demand.ofSite
  refine hsites.congr fun place demand => ?_
  constructor
  · rintro ⟨site, (⟨place, rfl, hsite⟩ | ⟨place, rfl, name, ⟨-, hname⟩, hsite⟩) |
      ⟨rfl, name, hname, rfl⟩, rfl⟩
    · exact .value hsite
    · exact .exportName hname hsite
    · exact .condition hname
  · intro h
    cases h with
    | value hsite => exact ⟨_, Or.inl (Or.inl ⟨_, rfl, hsite⟩), rfl⟩
    | exportName hname hsite =>
        exact ⟨_, Or.inl (Or.inr ⟨((), _), rfl, _, ⟨rfl, hname⟩, hsite⟩), rfl⟩
    | condition hname => exact ⟨_, Or.inr ⟨rfl, _, hname, rfl⟩, rfl⟩

theorem Blueprint.enumerates_demands (b : Blueprint) :
    Enumerates (· ≠ ·) (DemandAt b.resources b.conditions b.outputs) b.demands := by
  have hresources := (Enumerates.entries_flatMap b.resources
    fun entry => entry.2.enumerates_demands.map fun demand => (entry.1, demand)).rename
    (· ≠ ·) (fun place => TemplatePlace.resource place.1 place.2)
    fun place place' h heq =>
      ne_of_lex h (fun _ _ => ne_of_lt) (fun _ _ => ResourcePlace.Before.ne)
        (Prod.ext_iff.2 (TemplatePlace.resource.inj heq))
  have hconditions := (Enumerates.entries_flatMap b.conditions
    fun entry => (entry.2.enumerates_sites ("Conditions." ++ entry.1)).map
      fun site => (entry.1, Demand.ofSite site)).rename
    (· ≠ ·) (fun place => TemplatePlace.condition place.1 place.2)
    fun place place' h heq =>
      ne_of_lex h (fun _ _ => ne_of_lt) (fun _ _ => Value.DocumentOrder.ne)
        (Prod.ext_iff.2 (TemplatePlace.condition.inj heq))
  have houtputs := (Enumerates.entries_flatMap b.outputs
    fun entry => entry.2.enumerates_demands.map fun demand => (entry.1, demand)).rename
    (· ≠ ·) (fun place => TemplatePlace.output place.1 place.2)
    fun place place' h heq =>
      ne_of_lex h (fun _ _ => ne_of_lt) (fun _ _ hne => hne)
        (Prod.ext_iff.2 (TemplatePlace.output.inj heq))
  refine ((hresources.append hconditions ?_).append houtputs ?_).congr fun place found => ?_
  · rintro _ _ _ _ ⟨place, rfl, -⟩ ⟨place', rfl, -⟩ heq
    cases heq
  · rintro _ _ _ _ (⟨place, rfl, -⟩ | ⟨place, rfl, -⟩) ⟨place', rfl, -⟩ heq
    · cases heq
    · cases heq
  · constructor
    · rintro ((⟨place, rfl, r, hr, demand, hdemand, rfl⟩ |
        ⟨place, rfl, value, hvalue, site, hsite, rfl⟩) |
        ⟨place, rfl, output, houtput, demand, hdemand, rfl⟩)
      · exact .resource hr hdemand
      · exact .condition hvalue hsite
      · exact .output houtput hdemand
    · intro h
      cases h with
      | resource hr hdemand =>
          exact Or.inl (Or.inl ⟨(_, _), rfl, _, hr, _, hdemand, rfl⟩)
      | condition hvalue hsite =>
          exact Or.inl (Or.inr ⟨(_, _), rfl, _, hvalue, _, hsite, rfl⟩)
      | output houtput hdemand =>
          exact Or.inr ⟨(_, _), rfl, _, houtput, _, hdemand, rfl⟩

end Places

end CloudTemplate
