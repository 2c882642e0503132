import Mathlib.Data.List.Nodup
import CloudTemplate.Proofs.NameTable
import CloudTemplate.Recovery.Patterns

/-!
# The resources that a text stands for

A resource is known by the value of its name property, if this is a text or a
template without variables of its own (`Value.Names`), and by the ARNs made from
it (`Resource.KnownBy`).  What the user sets for a type counts, and else what is
built in (`RecoverySettings.NamedBy`, `RecoverySettings.Offers`); the name is put
in place of each placeholder of an ARN template (`Filled`).

The index of a resource set lists under each text the resources that are known
by it (`PatternIndex.lists_ofResources`), so the candidates for a call are the
other resources that are known by its template
(`PatternIndex.mem_candidates_iff`).
-/

namespace CloudTemplate

/-- The value tells a name without running anything. -/
inductive Value.Names : Value → String → Prop
  | string (text : String) : Names (.string text) text
  | sub (template : String) : Names (.apply .sub [.string template]) template

/-- The property names the resources of the type, by the table of the user or
else by the built-in convention. -/
def RecoverySettings.NamedBy (settings : RecoverySettings) (typeName property : String) : Prop :=
  settings.nameProperties.get? typeName = some property ∨
    settings.nameProperties.get? typeName = none ∧
      ∃ convention ∈ builtinConventions,
        convention.typeName = typeName ∧ convention.nameProperty = property

/-- The template makes ARNs for the type, by the table of the user or else by
the built-in convention. -/
def RecoverySettings.Offers (settings : RecoverySettings) (typeName template : String) : Prop :=
  (∃ templates, settings.arnTemplates.get? typeName = some templates ∧ template ∈ templates) ∨
    settings.arnTemplates.get? typeName = none ∧
      ∃ convention ∈ builtinConventions,
        convention.typeName = typeName ∧ template ∈ convention.arnTemplates

/-- A text is a template with the name in place of each placeholder, looked for
from the left. -/
inductive Filled (name : List Char) : List Char → List Char → Prop
  | nil : Filled name [] []
  | placeholder {back text : List Char} (h : Filled name back text) :
      Filled name (namePlaceholder.toList ++ back) (name ++ text)
  | char {c : Char} {rest text : List Char} (hnot : ¬ namePlaceholder.toList <+: c :: rest)
      (h : Filled name rest text) : Filled name (c :: rest) (c :: text)

/-- The text is the name of the resource, or an ARN made from the name. -/
def Resource.KnownBy (settings : RecoverySettings) (r : Resource) (text : String) : Prop :=
  ∃ property value name, settings.NamedBy r.typeName property ∧
    r.properties.get? property = some value ∧ value.Names name ∧
    (text = name ∨ ∃ template, settings.Offers r.typeName template ∧
      Filled name.toList template.toList text.toList)

/-- The resource with the id is known by the text. -/
def ResourceSet.Produces (resources : ResourceSet) (settings : RecoverySettings)
    (text id : String) : Prop :=
  ∃ r, resources.get? id = some r ∧ r.KnownBy settings text

theorem Value.knownText?_eq_some_iff
    {v : Value} {name : String} : v.knownText? = some name ↔ v.Names name := by
  constructor
  · intro h
    unfold knownText? at h
    split at h
    · cases h
      exact .string _
    · cases h
      exact .sub _
    · cases h
  · rintro (text | template)
    · rfl
    · rfl

namespace RecoverySettings

variable {settings : RecoverySettings} {typeName : String}

theorem builtinConvention?_eq_some_iff
    {convention : NamingConvention} :
    builtinConvention? typeName = some convention ↔
      convention ∈ builtinConventions ∧ convention.typeName = typeName := by
  have hnodup : (builtinConventions.map (·.typeName)).Nodup := by decide +kernel
  constructor
  · intro h
    exact ⟨List.mem_of_find?_eq_some h, by simpa using List.find?_some h⟩
  · rintro ⟨hmem, rfl⟩
    have hfound : (builtinConvention? convention.typeName).isSome = true :=
      List.find?_isSome.2 ⟨convention, hmem, decide_eq_true rfl⟩
    obtain ⟨found, hfind⟩ := Option.isSome_iff_exists.1 hfound
    have hname : found.typeName = convention.typeName := by simpa using List.find?_some hfind
    rw [hfind, List.inj_on_of_nodup_map hnodup (List.mem_of_find?_eq_some hfind) hmem hname]

theorem nameProperty?_eq_some_iff
    {property : String} :
    settings.nameProperty? typeName = some property ↔ settings.NamedBy typeName property := by
  unfold nameProperty? NamedBy
  cases settings.nameProperties.get? typeName with
  | some found => simp
  | none =>
      simp only [Option.none_or, Option.map_eq_some_iff, builtinConvention?_eq_some_iff, and_assoc,
        reduceCtorEq, false_or, true_and]

theorem mem_arnTemplatesOf_iff
    {template : String} :
    template ∈ settings.arnTemplatesOf typeName ↔ settings.Offers typeName template := by
  unfold arnTemplatesOf Offers
  cases settings.arnTemplates.get? typeName with
  | some templates => simp
  | none =>
      simp only [reduceCtorEq, false_and, exists_false, false_or, true_and, ←
        builtinConvention?_eq_some_iff, ← and_assoc]
      cases builtinConvention? typeName with
      | none => simp
      | some convention => simp

end RecoverySettings

section Filling

variable {name template text : List Char}

theorem fillName_placeholder_append (name back : List Char) :
    fillName name (namePlaceholder.toList ++ back) = name ++ fillName name back := rfl

theorem fillName_cons_of_unmatched
    {c : Char} {rest : List Char} (h : ¬ namePlaceholder.toList <+: c :: rest) :
    fillName name (c :: rest) = c :: fillName name rest := by
  rw [fillName]
  rintro back rfl rfl
  exact h ⟨back, rfl⟩

theorem filled_fillName (name template : List Char) :
    Filled name template (fillName name template) := by
  fun_induction fillName name template with
  | case1 rest ih => exact .placeholder ih
  | case2 c rest hnot ih =>
      refine .char (fun ⟨back, hback⟩ => ?_) ih
      cases hback
      exact hnot back rfl rfl
  | case3 => exact .nil

/-- There is one way to fill a name in. -/
theorem filled_iff : Filled name template text ↔ text = fillName name template := by
  constructor
  · intro h
    induction h with
    | nil => rfl
    | @placeholder back text h ih => rw [ih, fillName_placeholder_append]
    | @char c rest text hnot h ih => rw [ih, fillName_cons_of_unmatched hnot]
  · rintro rfl
    exact filled_fillName name template

end Filling

namespace PatternIndex

/-- The text has the resource under it, as a name or as an ARN. -/
def Lists (index : PatternIndex) (text id : String) : Prop :=
  id ∈ index.names.namesUnder text ∨ id ∈ index.arns.namesUnder text

variable {settings : RecoverySettings} {resources : ResourceSet} {index : PatternIndex}
variable {r : Resource} {text id u v : String}

section Index

theorem knownBy_iff :
    r.KnownBy settings text ↔
      ∃ name, nameOf? settings r = some name ∧ (text = name ∨ text ∈ arnsOf settings r name) := by
  have hname : ∀ name, nameOf? settings r = some name ↔
      ∃ property value, settings.NamedBy r.typeName property ∧
        r.properties.get? property = some value ∧ value.Names name := by
    intro name
    simp only [nameOf?, Option.bind_eq_bind, Option.bind_eq_some_iff,
      RecoverySettings.nameProperty?_eq_some_iff, Value.knownText?_eq_some_iff]
    constructor
    · rintro ⟨property, hproperty, value, hvalue, hknown⟩
      exact ⟨property, value, hproperty, hvalue, hknown⟩
    · rintro ⟨property, value, hproperty, hvalue, hknown⟩
      exact ⟨property, hproperty, value, hvalue, hknown⟩
  have harns : ∀ name, text ∈ arnsOf settings r name ↔
      ∃ template, settings.Offers r.typeName template ∧
        Filled name.toList template.toList text.toList := by
    intro name
    simp only [arnsOf, List.mem_map, RecoverySettings.mem_arnTemplatesOf_iff, filled_iff]
    refine exists_congr fun template => and_congr_right fun _ => ⟨?_, fun htext => ?_⟩
    · rintro rfl
      exact String.toList_ofList ..
    · rw [← htext, String.ofList_toList]
  simp only [hname, harns]
  constructor
  · rintro ⟨property, value, name, hproperty, hvalue, hknown, htext⟩
    exact ⟨name, ⟨property, value, hproperty, hvalue, hknown⟩, htext⟩
  · rintro ⟨name, ⟨property, value, hproperty, hvalue, hknown⟩, htext⟩
    exact ⟨property, value, name, hproperty, hvalue, hknown, htext⟩

/-- Adding a resource to an index adds what it is known by. -/
theorem lists_add :
    (index.add settings id r).Lists text v ↔
      v = id ∧ r.KnownBy settings text ∨ index.Lists text v := by
  rw [knownBy_iff]
  unfold add
  cases nameOf? settings r with
  | none => simp
  | some name =>
      simp only [Lists, addTo, NameTable.mem_namesUnder_insert_add,
        NameTable.mem_namesUnder_foldl_insert_add, Option.some.injEq, exists_eq_left']
      tauto

theorem foldl_add_iff
    {holds : PatternIndex → Prop} {known : Resource → Prop}
    (hadd : ∀ index id r, holds (index.add settings id r) ↔ v = id ∧ known r ∨ holds index)
    (entries : Entries Resource) :
    holds (entries.foldl (fun index entry => index.add settings entry.1 entry.2) index) ↔
      (∃ r, (v, r) ∈ entries ∧ known r) ∨ holds index := by
  induction entries generalizing index with
  | nil => simp
  | cons head rest ih =>
      obtain ⟨id, first⟩ := head
      rw [List.foldl_cons, ih, hadd]
      constructor
      · rintro (⟨r, hmem, hknown⟩ | ⟨rfl, hknown⟩ | hholds)
        · exact Or.inl ⟨r, List.mem_cons_of_mem _ hmem, hknown⟩
        · exact Or.inl ⟨first, List.mem_cons_self .., hknown⟩
        · exact Or.inr hholds
      · rintro (⟨r, hmem, hknown⟩ | hholds)
        · rcases List.mem_cons.1 hmem with heq | hmem
          · cases heq
            exact Or.inr (Or.inl ⟨rfl, hknown⟩)
          · exact Or.inl ⟨r, hmem, hknown⟩
        · exact Or.inr (Or.inr hholds)

/-- What each resource adds to an index of its own is what the index of a
resource set has. -/
theorem ofResources_iff
    (holds : PatternIndex → Prop) (known : Resource → Prop)
    (hadd : ∀ index id r, holds (index.add settings id r) ↔ v = id ∧ known r ∨ holds index)
    (hempty : ¬ holds empty) :
    holds (ofResources settings resources) ↔ ∃ r, resources.get? v = some r ∧ known r := by
  unfold ofResources
  rw [foldl_add_iff hadd, or_iff_left hempty]
  simp only [NameTable.get?_eq_some_iff]

/-- The index lists what the resources are known by. -/
theorem lists_ofResources :
    (ofResources settings resources).Lists text v ↔ resources.Produces settings text v :=
  ofResources_iff (fun index => index.Lists text v) (fun r => r.KnownBy settings text)
    (fun _ _ _ => lists_add) (by simp [Lists, empty, NameTable.namesUnder])

end Index

section Candidates

theorem Lists.mem_names (h : index.Lists text id) :
    text ∈ index.names.names ∨ text ∈ index.arns.names := by
  have hkey : ∀ {table : NameTable NameSet}, id ∈ table.namesUnder text → text ∈ table.names := by
    intro table hid
    obtain ⟨ids, hids, -⟩ := NameTable.mem_namesUnder_iff.1 hid
    exact NameTable.mem_names_iff_get?.2 ⟨ids, hids⟩
  exact h.imp hkey hkey

theorem mem_candidates_iff_lists :
    v ∈ index.candidates text u ↔ v ≠ u ∧ index.Lists text v := by
  show v ∈ List.filter (· ≠ u) (NameSet.ofList
    (index.names.namesUnder text ++ index.arns.namesUnder text)).names ↔ _
  rw [List.mem_filter, NameSet.mem_names_ofList, List.mem_append, decide_eq_true_eq, Lists]
  exact and_comm

/-- The candidates are the other resources that are known by the text. -/
theorem mem_candidates_iff :
    v ∈ (ofResources settings resources).candidates text u ↔
      v ≠ u ∧ resources.Produces settings text v := by
  rw [mem_candidates_iff_lists, lists_ofResources]

theorem pairwise_candidates (index : PatternIndex) (text u : String) :
    (index.candidates text u).Pairwise (· < ·) :=
  (NameTable.pairwise_names _).filter _

theorem candidates_eq_nil_of_isEmpty (h : index.isEmpty = true) :
    index.candidates text u = [] := by
  unfold isEmpty at h
  rw [Bool.and_eq_true, NameTable.isEmpty_iff, NameTable.isEmpty_iff] at h
  refine List.eq_nil_iff_forall_not_mem.2 fun v hv => ?_
  have hlists := (mem_candidates_iff_lists.1 hv).2
  simp [Lists, h.1, h.2, NameTable.namesUnder] at hlists

/-- The candidates are listed in ascending order. -/
theorem candidates_eq_iff
    {list : List String} :
    (ofResources settings resources).candidates text u = list ↔
      list.Pairwise (· < ·) ∧ ∀ w, w ∈ list ↔ w ≠ u ∧ resources.Produces settings text w := by
  simp only [← mem_candidates_iff]
  constructor
  · rintro rfl
    exact ⟨pairwise_candidates .., fun w => Iff.rfl⟩
  · rintro ⟨hordered, hmem⟩
    exact (pairwise_candidates ..).eq_of_mem_iff hordered fun w => (hmem w).symm

/-- There is a single candidate when just one other resource is known by the
text. -/
theorem candidates_eq_singleton_iff :
    (ofResources settings resources).candidates text u = [v] ↔
      ∀ w, w ≠ u ∧ resources.Produces settings text w ↔ w = v := by
  rw [candidates_eq_iff, and_iff_right (List.pairwise_singleton ..)]
  simp only [List.mem_singleton]
  exact forall_congr' fun w => Iff.comm

end Candidates

end PatternIndex
end CloudTemplate
