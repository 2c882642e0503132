import CloudTemplate.Proofs.Recovery.Patterns

/-!
# Names that are filled into a template

An ARN is made by putting the name of a resource in place of each placeholder of
a template.  What stands in front of the first placeholder is the same for all
names, and a longer name makes all that follows longer, so two names never make
the same text (`fillName_injective`).  Names are not looked through for
placeholders.

Main statement: with settings that are valid, every template has a placeholder,
so differently named resources that are known by the same ARN have it from
different templates (`PatternIndex.arns_tell_names_apart`).
-/

namespace CloudTemplate

/-- The ARN that a template makes from a name. -/
def arnOf (template name : String) : String :=
  String.ofList (fillName name.toList template.toList)

section Filling

variable {name name' template : List Char}

/-- In front of the first placeholder nothing is changed. -/
theorem exists_fillName_eq
    (h : RecoverySettings.hasPlaceholder template = true) :
    ∃ front back, ∀ name, fillName name template = front ++ (name ++ fillName name back) := by
  induction template with
  | nil => cases h
  | cons c rest ih =>
      by_cases hprefix : namePlaceholder.toList <+: c :: rest
      · obtain ⟨back, hback⟩ := hprefix
        exact ⟨[], back, fun name => hback ▸ fillName_placeholder_append name back⟩
      · rw [RecoverySettings.hasPlaceholder, Bool.or_eq_true, List.isPrefixOf_iff_prefix] at h
        obtain ⟨front, back, hfill⟩ := ih (h.resolve_left hprefix)
        refine ⟨c :: front, back, fun name => ?_⟩
        rw [fillName_cons_of_unmatched hprefix, hfill]
        rfl

/-- A longer name makes a longer text. -/
theorem length_fillName_le
    (h : name.length ≤ name'.length) (template : List Char) :
    (fillName name template).length ≤ (fillName name' template).length := by
  fun_induction fillName name template with
  | case1 rest ih =>
      rw [fillName, List.length_append, List.length_append]
      omega
  | case2 c rest hnot ih =>
      rw [fillName]
      · rw [List.length_cons, List.length_cons]
        omega
      · exact hnot
  | case3 => simp [fillName]

theorem fillName_injective
    (hplaceholder : RecoverySettings.hasPlaceholder template = true)
    (h : fillName name template = fillName name' template) : name = name' := by
  obtain ⟨front, back, hfill⟩ := exists_fillName_eq hplaceholder
  rw [hfill, hfill, List.append_cancel_left_eq] at h
  have hlength := congrArg List.length h
  rw [List.length_append, List.length_append] at hlength
  have hsame : name.length = name'.length := by
    rcases le_total name.length name'.length with hle | hle
    · have := length_fillName_le hle back
      omega
    · have := length_fillName_le hle back
      omega
  exact (List.append_inj h hsame).1

end Filling

namespace RecoverySettings

variable {settings : RecoverySettings} {typeName template : String}

theorem hasPlaceholder_append
    (front : String) {back : String} (h : hasPlaceholder back.toList = true) :
    hasPlaceholder (front ++ back).toList = true := by
  rw [String.toList_append]
  induction front.toList with
  | nil => exact h
  | cons c rest ih => rw [List.cons_append, hasPlaceholder, ih, Bool.or_true]

theorem hasPlaceholder_arnTemplate
    {resource : String} (h : hasPlaceholder resource.toList = true)
    (service region account : String) :
    hasPlaceholder (arnTemplate service region account resource).toList = true :=
  hasPlaceholder_append _ h

/-- The built-in templates have their placeholders where they name the resource. -/
theorem hasPlaceholder_builtin :
    ∀ convention ∈ builtinConventions, ∀ template ∈ convention.arnTemplates,
      hasPlaceholder template.toList = true := by
  simp only [builtinConventions, globalArn, accountArn, regionalArn, List.forall_mem_cons,
    List.not_mem_nil, false_implies, implies_true, and_true]
  and_intros <;> refine hasPlaceholder_arnTemplate ?_ .. <;> decide

/-- Validation lets no template of a user pass without a placeholder. -/
theorem hasPlaceholder_of_fault?
    {templates : List String} (h : settings.fault? = none)
    (hget : settings.arnTemplates.get? typeName = some templates) (htemplate : template ∈ templates) :
    hasPlaceholder template.toList = true := by
  unfold fault? at h
  split at h
  · cases h
  · have hentry := List.findSome?_eq_none_iff.1 h _ (NameTable.get?_eq_some_iff.1 hget)
    simpa using List.find?_eq_none.1 (Option.map_eq_none_iff.1 hentry) template htemplate

theorem hasPlaceholder_of_validate
    (h : settings.validate = .ok ()) (htemplate : template ∈ settings.arnTemplatesOf typeName) :
    hasPlaceholder template.toList = true := by
  have hfault : settings.fault? = none := by
    unfold validate at h
    split at h
    · cases h
    · assumption
  unfold arnTemplatesOf at htemplate
  split at htemplate
  · next templates hget => exact hasPlaceholder_of_fault? hfault hget htemplate
  · cases hconvention : builtinConvention? typeName with
    | none =>
        rw [hconvention] at htemplate
        cases htemplate
    | some convention =>
        rw [hconvention] at htemplate
        exact hasPlaceholder_builtin convention (List.mem_of_find?_eq_some hconvention) _ htemplate

end RecoverySettings

namespace PatternIndex

variable {settings : RecoverySettings} {resources : ResourceSet} {arn id : String}

/-- An ARN has the resources under it that it can be made for. -/
theorem mem_namesUnder_arns_iff :
    id ∈ (ofResources settings resources).arns.namesUnder arn ↔
      ∃ r, resources.get? id = some r ∧
        ∃ name, nameOf? settings r = some name ∧ arn ∈ arnsOf settings r name := by
  refine ofResources_iff (fun index => id ∈ index.arns.namesUnder arn)
    (fun r => ∃ name, nameOf? settings r = some name ∧ arn ∈ arnsOf settings r name)
    (fun index other r => ?_) (by simp [empty, NameTable.namesUnder])
  unfold add
  cases nameOf? settings r with
  | none => simp
  | some name =>
      simp only [addTo, NameTable.mem_namesUnder_foldl_insert_add, Option.some.injEq,
        exists_eq_left']
      tauto

/-- **One template never makes the same ARN from two names.**  With settings that
are valid, every template of a type, whether built in or not, makes different
ARNs from different names.  So resources with different names that are known by
the same ARN have it from different templates. -/
theorem arns_tell_names_apart (h : settings.validate = .ok ()) :
    (∀ typeName, ∀ template ∈ settings.arnTemplatesOf typeName, ∀ name name',
      name ≠ name' → arnOf template name ≠ arnOf template name') ∧
    ∀ (resources : ResourceSet) (arn id id' : String) (r r' : Resource) (name name' : String),
      resources.get? id = some r → nameOf? settings r = some name →
      resources.get? id' = some r' → nameOf? settings r' = some name' → name ≠ name' →
      id ∈ (ofResources settings resources).arns.namesUnder arn →
      id' ∈ (ofResources settings resources).arns.namesUnder arn →
      ∃ template ∈ settings.arnTemplatesOf r.typeName,
        ∃ template' ∈ settings.arnTemplatesOf r'.typeName,
          template ≠ template' ∧ arn = arnOf template name ∧ arn = arnOf template' name' := by
  have hinjective : ∀ typeName, ∀ template ∈ settings.arnTemplatesOf typeName, ∀ name name',
      name ≠ name' → arnOf template name ≠ arnOf template name' := by
    intro typeName template htemplate name name' hne heq
    have hplaceholder := RecoverySettings.hasPlaceholder_of_validate h htemplate
    have hsame := fillName_injective hplaceholder (String.ofList_injective heq)
    exact hne (String.toList_injective hsame)
  refine ⟨hinjective, ?_⟩
  intro resources arn id id' r r' name name' hr hname hr' hname' hne hid hid'
  obtain ⟨_, hfound, _, hnamed, harn⟩ := mem_namesUnder_arns_iff.1 hid
  obtain ⟨_, hfound', _, hnamed', harn'⟩ := mem_namesUnder_arns_iff.1 hid'
  cases hr.symm.trans hfound
  cases hr'.symm.trans hfound'
  cases hname.symm.trans hnamed
  cases hname'.symm.trans hnamed'
  obtain ⟨template, htemplate, rfl⟩ := List.mem_map.1 harn
  obtain ⟨template', htemplate', heq⟩ := List.mem_map.1 harn'
  refine ⟨template, htemplate, template', htemplate', ?_, rfl, heq.symm⟩
  rintro rfl
  exact hinjective _ template htemplate name name' hne heq.symm

section Nested

/-- Settings by which a type has a template with two placeholders. -/
def repeatingSettings : RecoverySettings :=
  ⟨true, .empty, .ofList [("Custom::Store", [namePlaceholder ++ ":" ++ namePlaceholder])]⟩

/-- A bucket with a name. -/
def namedBucket (name : String) : Resource :=
  (Resource.ofType "AWS::S3::Bucket").withProperty "BucketName" (.string name)

/-- The second bucket is named as if it were all that is in the first one. -/
def nestedBuckets : ResourceSet :=
  .ofList [("A", namedBucket "logs"), ("B", namedBucket "logs/*")]

/-- The ARN of what is in the first bucket, and of the second bucket. -/
def nestedArn : String :=
  globalArn "s3" "logs/*"

/-- A name that is a placeholder itself is not filled in again, and an ARN that
two buckets share comes from two templates. -/
theorem arns_tell_nested_names_apart :
    repeatingSettings.validate = .ok () ∧
      arnOf (namePlaceholder ++ ":" ++ namePlaceholder) namePlaceholder ≠
        arnOf (namePlaceholder ++ ":" ++ namePlaceholder) (variable_ "A") ∧
      ∃ template ∈ repeatingSettings.arnTemplatesOf "AWS::S3::Bucket",
        ∃ template' ∈ repeatingSettings.arnTemplatesOf "AWS::S3::Bucket",
          template ≠ template' ∧ nestedArn = arnOf template "logs" ∧
            nestedArn = arnOf template' "logs/*" := by
  have hvalid : repeatingSettings.validate = .ok () := by decide +kernel
  obtain ⟨hdiffer, hshared⟩ := arns_tell_names_apart hvalid
  refine ⟨hvalid, hdiffer "Custom::Store" _ (by decide +kernel) _ _ (by decide), ?_⟩
  exact hshared nestedBuckets nestedArn "A" "B" (namedBucket "logs") (namedBucket "logs/*")
    "logs" "logs/*" (by decide +kernel) (by decide +kernel) (by decide +kernel)
    (by decide +kernel) (by decide) (by decide +kernel) (by decide +kernel)

end Nested

end PatternIndex
end CloudTemplate
