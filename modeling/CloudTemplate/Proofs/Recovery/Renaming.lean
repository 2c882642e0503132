import CloudTemplate.Proofs.Graph.Interpolation
import CloudTemplate.Proofs.Recovery.Calls
import CloudTemplate.Proofs.Reference.Renaming
import CloudTemplate.Proofs.Reference.Scoping

/-!
# Renaming the variables of a call

A call of `Fn::Sub` may bind variables by a map.  When one of them gets a fresh
name, in the map and in the template (`Value.renamed`), the call refers to the
same as before, and so do the nodes around it.

Main statement: recovery finds the same targets and the same candidates, in
another order when the new name has another place among the variables
(`PatternIndex.recover_renamed`).  This leaves out calls with candidates of their
own: their template reads like the text of another resource, and texts are
compared without regard to variables.  Neither restriction can be dropped
(`PatternIndex.not_forall_recover_renamed`).
-/

namespace CloudTemplate

namespace Entries

universe u
variable {α : Type u} {x y : String} {entries : Entries α}

/-- Put one name in place of another, where each entry stands. -/
def renameKey (x y : String) (entries : Entries α) : Entries α :=
  entries.map fun entry => (if entry.1 = x then y else entry.1, entry.2)

theorem names_renameKey (x y : String) (entries : Entries α) :
    names (renameKey x y entries) =
      (names entries).map fun name => if name = x then y else name := by
  simp [names, renameKey]

theorem map_snd_renameKey (x y : String) (entries : Entries α) :
    (renameKey x y entries).map Prod.snd = entries.map Prod.snd := by
  simp [renameKey]

theorem nodup_names_renameKey (h : (names entries).Nodup) (hy : y ∉ names entries) :
    (names (renameKey x y entries)).Nodup := by
  rw [names_renameKey]
  refine h.map_on fun name hname other hother heq => ?_
  split_ifs at heq with hx hx' hx'
  · exact hx.trans hx'.symm
  · exact absurd (heq ▸ hother) hy
  · exact absurd (heq ▸ hname) hy
  · exact heq

/-- A name other than the two is one of the entries as before. -/
theorem mem_names_renameKey {name : String} (hx : name ≠ x) (hy : name ≠ y) :
    name ∈ names (renameKey x y entries) ↔ name ∈ names entries := by
  rw [names_renameKey, List.mem_map]
  constructor
  · rintro ⟨other, hother, heq⟩
    split_ifs at heq
    · exact absurd heq.symm hy
    · exact heq ▸ hother
  · intro hname
    exact ⟨name, hname, if_neg hx⟩

theorem mem_names_renameKey_self (h : x ∈ names entries) : y ∈ names (renameKey x y entries) := by
  rw [names_renameKey]
  exact List.mem_map.2 ⟨x, h, if_pos rfl⟩

end Entries

namespace Value

variable {v w old new : Value} {path p : String} {position : List Nat} {index : Nat}

section Replaced

/-- What the value refers to, around a position and at it. -/
theorem exists_targets_replaceAt
    (hnode : v.nodeAt? path position = some (p, old)) (hold : old.Unread) (hnew : new.Unread) :
    ∃ before after, v.targets = before ++ old.targets ++ after ∧
      (replaceAt new position v).targets = before ++ new.targets ++ after := by
  obtain ⟨before, after, hsites, hreplaced⟩ := exists_sites_replaceAt hnode hold
  refine ⟨before.map ReferenceSite.target, after.map ReferenceSite.target, ?_, ?_⟩
  · rw [targets_eq_flatMap, ← map_target_sites path, hsites, List.map_append, List.map_append,
      map_target_sites, targets_eq_flatMap]
  · rw [targets_eq_flatMap, ← map_target_sites path, hreplaced new hnew, List.map_append,
      List.map_append, map_target_sites, targets_eq_flatMap]

theorem subTemplate?_modifyChild
    {g : Value → Value} (h : ∀ child, v.childValues[index]? = some child → (g child).Alike child) :
    (modifyChild g index v).subTemplate? = v.subTemplate? := by
  cases v with
  | apply f arguments =>
      rw [modifyChild, subTemplate?_apply, subTemplate?_apply, List.getElem?_modify]
      cases hfirst : arguments[0]? with
      | none => rfl
      | some first =>
          by_cases hindex : index = 0
          · subst hindex
            simp [(h first hfirst).string?_eq]
          · simp [hindex]
  | _ => rfl

theorem childValues_modifyChild (g : Value → Value) (index : Nat) (v : Value) :
    (modifyChild g index v).childValues = v.childValues.modify index g := by
  cases v with
  | map entries =>
      refine List.ext_getElem? fun i => ?_
      simp only [modifyChild, childValues, List.getElem?_map, List.getElem?_modify]
      cases entries[i]? <;> by_cases hindex : index = i <;> simp [hindex]
  | _ => first | rfl | simp [modifyChild, childValues]

/-- The nodes of a value are the value, those of a child, and those before and
after it. -/
theorem exists_parts_modifyChild
    {child : Value} (hchild : v.childValues[index]? = some child) :
    ∃ before after, v.parts = v :: (before ++ child.parts ++ after) ∧
      ∀ g, (modifyChild g index v).parts =
        modifyChild g index v :: (before ++ (g child).parts ++ after) := by
  obtain ⟨hindex, rfl⟩ := List.getElem?_eq_some_iff.1 hchild
  refine ⟨(v.childValues.take index).flatMap parts,
    (v.childValues.drop (index + 1)).flatMap parts, ?_, fun g => ?_⟩
  · rw [parts_eq_cons, List.append_assoc, ← List.flatMap_cons, ← List.flatMap_append,
      ← List.drop_eq_getElem_cons hindex, List.take_append_drop]
  · rw [parts_eq_cons, childValues_modifyChild, List.modify_eq_take_cons_drop hindex,
      List.flatMap_append, List.flatMap_cons, List.append_assoc]

theorem subTemplate?_replaceAt_cons
    (hnode : v.nodeAt? path (index :: position) = some (p, old)) (hold : old.Unread)
    (hnew : new.Unread) :
    (replaceAt new (index :: position) v).subTemplate? = v.subTemplate? := by
  rw [nodeAt?] at hnode
  split at hnode
  · next child hchild =>
    refine subTemplate?_modifyChild fun child' hchild' => ?_
    rw [← map_snd_children path v, List.getElem?_map, hchild] at hchild'
    cases hchild'
    exact alike_replaceAt hnode hold hnew
  · cases hnode

end Replaced

section Calls

variable {x y template : String} {bindings : Entries Value}

/-- The call with another name for a variable.  Maps are listed in the order of
their names, so the variable may get another place. -/
def renamed (x y template : String) (bindings : Entries Value) : Value :=
  subCall (Placeholder.renameTemplate x y template)
    (Entries.sort (Entries.renameKey x y bindings))

theorem parts_subCall (template : String) (bindings : Entries Value) :
    (subCall template bindings).parts =
      subCall template bindings :: .string template :: .map bindings ::
        (bindings.map Prod.snd).flatMap parts := by
  rw [parts_eq_cons, subCall, childValues, List.flatMap_cons, List.flatMap_cons,
    parts_eq_cons (.string template), parts_eq_cons (.map bindings)]
  simp [childValues]

theorem ownTargets_subCall (template : String) (bindings : Entries Value) :
    (subCall template bindings).ownTargets = (Placeholder.ofTemplate template).filterMap fun p =>
      if isPseudoParameter p.name || Entries.hasName p.name bindings then none
      else some p.name := by
  show ((Placeholder.ofTemplate template).filterMap _).map _ = _
  rw [List.map_filterMap]
  refine List.filterMap_congr fun p _ => ?_
  show Option.map _ (if (isPseudoParameter p.name || Entries.hasName p.name bindings) = true
    then none else _) = _
  split_ifs
  · rfl
  · rfl

/-- The variable is no reference of the call under either name, and all else is
as it was. -/
theorem ownTargets_renamed
    (hplain : (Placeholder.mk y none).Plain) (hx : x ∈ Entries.names bindings)
    (hy : ∀ p ∈ Placeholder.ofTemplate template, p.name ≠ y) :
    (renamed x y template bindings).ownTargets = (subCall template bindings).ownTargets := by
  rw [renamed, ownTargets_subCall, ownTargets_subCall,
    Placeholder.ofTemplate_renameTemplate hplain, List.filterMap_map]
  refine List.filterMap_congr fun p hp => ?_
  have hbound : ∀ name, Entries.hasName name (Entries.sort (Entries.renameKey x y bindings)) =
      true ↔ name ∈ Entries.names (Entries.renameKey x y bindings) := fun name => by
    rw [Entries.hasName_iff, Entries.mem_names_sort]
  by_cases hname : p.name = x
  · have hold : Entries.hasName p.name bindings = true := Entries.hasName_iff.2 (hname ▸ hx)
    have hnew := (hbound y).2 (Entries.mem_names_renameKey_self hx)
    simp [Placeholder.rename, hname, hname ▸ hold, hnew]
  · have hsame : Entries.hasName p.name (Entries.sort (Entries.renameKey x y bindings)) =
        Entries.hasName p.name bindings := by
      rw [Bool.eq_iff_iff, hbound, Entries.mem_names_renameKey hname (hy p hp),
        Entries.hasName_iff]
    simp only [Function.comp_apply, Placeholder.rename_of_ne hname, hsame]

/-- The values of the variables, in the order of the new names. -/
theorem perm_values_renamed
    (hbindings : Entries.Ascending bindings) (hy : y ∉ Entries.names bindings) :
    ((Entries.sort (Entries.renameKey x y bindings)).map Prod.snd).Perm
      (bindings.map Prod.snd) := by
  have hnodup := Entries.nodup_names_renameKey (x := x) hbindings.nodup_names hy
  exact ((Entries.sort_perm hnodup).map Prod.snd).trans
    (.of_eq (Entries.map_snd_renameKey x y bindings))

theorem targets_subCall (template : String) (bindings : Entries Value) :
    (subCall template bindings).targets = (subCall template bindings).ownTargets ++
      ((bindings.map Prod.snd).flatMap parts).flatMap ownTargets := by
  rw [targets_eq_flatMap, parts_subCall]
  rfl

theorem mem_targets_renamed
    (hplain : (Placeholder.mk y none).Plain) (hbindings : Entries.Ascending bindings)
    (hx : x ∈ Entries.names bindings) (hy : y ∉ Entries.names bindings)
    (htemplate : ∀ p ∈ Placeholder.ofTemplate template, p.name ≠ y) (name : String) :
    name ∈ (renamed x y template bindings).targets ↔
      name ∈ (subCall template bindings).targets := by
  have hown := ownTargets_renamed hplain hx htemplate
  rw [renamed] at hown ⊢
  rw [targets_subCall, targets_subCall, hown, List.mem_append, List.mem_append]
  exact or_congr_right
    (((perm_values_renamed hbindings hy).flatMap_right parts).flatMap_right ownTargets).mem_iff

end Calls

end Value

namespace PatternIndex

open Value

variable {index : PatternIndex} {scope : Scope} {id path p : String} {position : List Nat}
variable {v w old new : Value}

/-- The candidates for a node, when recovery considers it. -/
def told (index : PatternIndex) (scope : Scope) (id : String) (node : Value) : List String :=
  match node.subTemplate? with
  | none => []
  | some template => if isSkipped scope node template then [] else index.candidates template id

/-- The target that some candidates make. -/
def single (candidates : List String) : List String :=
  if candidates.length = 1 then candidates else []

/-- The candidates of a warning that some candidates make. -/
def several (candidates : List String) : List (List String) :=
  if 2 ≤ candidates.length then [candidates] else []

section Told

/-- A node makes what its candidates make. -/
theorem recoverNode_told (index : PatternIndex) (scope : Scope) (id path : String)
    (node : Value) :
    (index.recoverNode scope id path node).dependencies.map RecoveredDependency.target =
        single (index.told scope id node) ∧
      (index.recoverNode scope id path node).warnings.map AmbiguousMatch.candidates =
        several (index.told scope id node) := by
  cases htemplate : node.subTemplate? with
  | none => simp [recoverNode, told, htemplate, single, several]
  | some template =>
      by_cases hskipped : isSkipped scope node template = true
      · simp [recoverNode, told, htemplate, hskipped, single, several]
      · simp only [recoverNode, told, htemplate, hskipped]
        match index.candidates template id with
        | [] => exact ⟨rfl, rfl⟩
        | [target] => exact ⟨rfl, rfl⟩
        | first :: second :: rest => simp [single, several]

theorem told_congr
    (htemplate : v.subTemplate? = w.subTemplate?)
    (htargets : ∀ name, name ∈ v.targets ↔ name ∈ w.targets) :
    index.told scope id v = index.told scope id w := by
  have hany : (v.sites "").any (fun site => scope.isResource site.target) =
      (w.sites "").any fun site => scope.isResource site.target := by
    have hmap : ∀ u : Value, (u.sites "").any (fun site => scope.isResource site.target) =
        u.targets.any scope.isResource := fun u => (List.any_map ..).symm
    rw [hmap, hmap, Bool.eq_iff_iff, List.any_eq_true, List.any_eq_true]
    simp only [htargets]
  unfold told isSkipped
  rw [htemplate, hany]

/-- What the nodes of a resource tell, one after the other. -/
def toldBy (index : PatternIndex) (scope : Scope) (id : String) (r : Resource) :
    List (List String) :=
  (r.properties.entries.flatMap fun entry => entry.2.parts).map (index.told scope id)

/-- Recovery finds what the nodes tell. -/
theorem recover_toldBy (index : PatternIndex) (scope : Scope) (id : String) (r : Resource) :
    (index.recover scope id r).dependencies.map RecoveredDependency.target =
        (index.toldBy scope id r).flatMap single ∧
      (index.recover scope id r).warnings.map AmbiguousMatch.candidates =
        (index.toldBy scope id r).flatMap several := by
  have hnodes : (r.properties.entries.flatMap fun entry => entry.2.parts) =
      (nodesOf r).map Prod.snd := by
    rw [nodesOf, List.map_flatMap]
    exact List.flatMap_congr fun entry _ => (map_snd_nodes ("Properties." ++ entry.1) entry.2).symm
  rw [recover_eq, toldBy, hnodes, List.map_map, List.flatMap_map, List.flatMap_map,
    List.map_flatMap, List.map_flatMap]
  refine ⟨List.flatMap_congr fun node _ => ?_, List.flatMap_congr fun node _ => ?_⟩
  · exact (recoverNode_told index scope id node.1 node.2).1
  · exact (recoverNode_told index scope id node.1 node.2).2

/-- The nodes of a value tell what those around a position tell, and those at it,
if both nodes at the position refer to the same. -/
theorem exists_map_told_replaceAt
    (index : PatternIndex) (scope : Scope) (id : String)
    (hnode : v.nodeAt? path position = some (p, old)) (hold : old.Unread) (hnew : new.Unread)
    (htargets : ∀ name, name ∈ new.targets ↔ name ∈ old.targets) :
    ∃ before after,
      v.parts.map (index.told scope id) =
        before ++ old.parts.map (index.told scope id) ++ after ∧
      (replaceAt new position v).parts.map (index.told scope id) =
        before ++ new.parts.map (index.told scope id) ++ after := by
  induction position generalizing path v with
  | nil =>
      cases hnode
      exact ⟨[], [], by simp, by simp [replaceAt]⟩
  | cons i position ih =>
      have hself : index.told scope id (replaceAt new (i :: position) v) =
          index.told scope id v := by
        obtain ⟨before, after, hbefore, hafter⟩ := exists_targets_replaceAt hnode hold hnew
        refine told_congr ?_ fun name => ?_
        · exact subTemplate?_replaceAt_cons hnode hold hnew
        · simp only [hbefore, hafter, List.mem_append, htargets]
      rw [nodeAt?] at hnode
      split at hnode
      · next child hchild =>
        obtain ⟨before, after, hold', hnew'⟩ := ih hnode
        have hvalue : v.childValues[i]? = some child.2 := by
          rw [← map_snd_children path v, List.getElem?_map, hchild, Option.map_some]
        obtain ⟨front, back, hparts, hmodify⟩ := exists_parts_modifyChild hvalue
        refine ⟨index.told scope id v :: front.map (index.told scope id) ++ before,
          after ++ back.map (index.told scope id), ?_, ?_⟩
        · rw [hparts]
          simp [hold']
        · rw [replaceAt] at hself ⊢
          rw [hmodify, List.map_cons, hself]
          simp [hnew']
      · cases hnode

theorem exists_toldBy_replaceAt
    (index : PatternIndex) (scope : Scope) (id : String)
    {r : Resource} {property : String} {value : Value}
    (hproperty : r.properties.get? property = some value)
    (hnode : value.nodeAt? path position = some (p, old)) (hold : old.Unread) (hnew : new.Unread)
    (htargets : ∀ name, name ∈ new.targets ↔ name ∈ old.targets) :
    ∃ before after,
      index.toldBy scope id r = before ++ old.parts.map (index.told scope id) ++ after ∧
      index.toldBy scope id (r.replaceAt property position new) =
        before ++ new.parts.map (index.told scope id) ++ after := by
  obtain ⟨front, back, hentries, hmodify⟩ := NameTable.exists_entries_modify hproperty
  obtain ⟨before, after, hbefore, hafter⟩ := exists_map_told_replaceAt index scope id
    hnode hold hnew htargets
  let tell (entry : String × Value) := entry.2.parts.map (index.told scope id)
  refine ⟨front.flatMap tell ++ before, after ++ back.flatMap tell, ?_, ?_⟩
  · rw [toldBy, hentries, List.map_flatMap, List.flatMap_append, List.flatMap_cons, hbefore]
    simp only [tell, List.append_assoc]
  · rw [toldBy, Resource.replaceAt, hmodify, List.map_flatMap, List.flatMap_append,
      List.flatMap_cons, hafter]
    simp only [tell, List.append_assoc]

end Told

section Renaming

variable {r : Resource} {property x y template : String} {bindings : Entries Value}

/-- The name occurs in no template and no map of variables of the resource, in no
text of the index, and it is not in scope. -/
structure Fresh (index : PatternIndex) (scope : Scope) (r : Resource) (y : String) : Prop where
  plain : (Placeholder.mk y none).Plain
  no_template : ∀ node ∈ nodesOf r, ∀ template ∈ node.2.subTemplate?,
    ∀ p ∈ Placeholder.ofTemplate template, p.name ≠ y
  no_variable : ∀ node ∈ nodesOf r, ∀ bindings ∈ node.2.subVariables?,
    y ∉ Entries.names bindings
  no_pattern : ∀ text id, index.Lists text id → ∀ p ∈ Placeholder.ofTemplate text, p.name ≠ y
  no_resource : y ∉ scope.resources.names
  no_parameter : y ∉ scope.parameters.names
  no_condition : y ∉ scope.conditions.names
  no_pseudoParameter : y ∉ pseudoParameters

/-- A call at a position in a property of the resource binds the variable. -/
structure Binds (r : Resource) (property : String) (position : List Nat) (template : String)
    (bindings : Entries Value) (x : String) : Prop where
  exists_node : ∃ value path, r.properties.get? property = some value ∧
    value.nodeAt? ("Properties." ++ property) position = some (path, subCall template bindings)
  ascending : Entries.Ascending bindings
  mem : x ∈ Entries.names bindings

/-- Recovery finds the same targets and the same candidates in both resources, in
the same order. -/
structure FindsSame (index : PatternIndex) (scope : Scope) (id : String) (r r' : Resource) :
    Prop where
  targets : (index.recover scope id r').dependencies.map RecoveredDependency.target =
    (index.recover scope id r).dependencies.map RecoveredDependency.target
  candidates : (index.recover scope id r').warnings.map AmbiguousMatch.candidates =
    (index.recover scope id r).warnings.map AmbiguousMatch.candidates

/-- Recovery finds the same targets and the same candidates in both resources, in
some order. -/
structure FindsAlike (index : PatternIndex) (scope : Scope) (id : String) (r r' : Resource) :
    Prop where
  targets : ((index.recover scope id r').dependencies.map RecoveredDependency.target).Perm
    ((index.recover scope id r).dependencies.map RecoveredDependency.target)
  candidates : ((index.recover scope id r').warnings.map AmbiguousMatch.candidates).Perm
    ((index.recover scope id r).warnings.map AmbiguousMatch.candidates)

theorem FindsAlike.of_toldBy
    {r' : Resource} (h : (index.toldBy scope id r').Perm (index.toldBy scope id r)) :
    index.FindsAlike scope id r r' := by
  obtain ⟨htargets, hcandidates⟩ := recover_toldBy index scope id r
  obtain ⟨htargets', hcandidates'⟩ := recover_toldBy index scope id r'
  constructor
  · rw [htargets, htargets']
    exact h.flatMap_right single
  · rw [hcandidates, hcandidates']
    exact h.flatMap_right several

theorem FindsSame.of_toldBy
    {r' : Resource} (h : index.toldBy scope id r' = index.toldBy scope id r) :
    index.FindsSame scope id r r' := by
  obtain ⟨htargets, hcandidates⟩ := recover_toldBy index scope id r
  obtain ⟨htargets', hcandidates'⟩ := recover_toldBy index scope id r'
  constructor
  · rw [htargets, htargets', h]
  · rw [hcandidates, hcandidates', h]

theorem map_told_subCall (template : String) (bindings : Entries Value) :
    (subCall template bindings).parts.map (index.told scope id) =
      index.told scope id (subCall template bindings) :: [] :: [] ::
        ((bindings.map Prod.snd).flatMap parts).map (index.told scope id) := by
  rw [parts_subCall]
  rfl

theorem told_eq_nil
    (h : index.candidates template id = []) :
    index.told scope id (subCall template bindings) = [] := by
  show (if _ then [] else index.candidates template id) = []
  rw [h, ite_self]

/-- The call has the candidates that it had.  Under the new name its template is no
text of the index if the variable is used in it, so it must have had none then. -/
theorem told_renamed
    (hplain : (Placeholder.mk y none).Plain) (hbindings : Entries.Ascending bindings)
    (hx : x ∈ Entries.names bindings) (hy : y ∉ Entries.names bindings)
    (htemplate : ∀ p ∈ Placeholder.ofTemplate template, p.name ≠ y)
    (hpattern : ∀ text id, index.Lists text id → ∀ p ∈ Placeholder.ofTemplate text, p.name ≠ y)
    (hnone : (∃ p ∈ Placeholder.ofTemplate template, p.name = x) →
      index.told scope id (subCall template bindings) = []) :
    index.told scope id (renamed x y template bindings) =
      index.told scope id (subCall template bindings) := by
  by_cases hused : ∃ p ∈ Placeholder.ofTemplate template, p.name = x
  · have hnew : index.candidates (Placeholder.renameTemplate x y template) id = [] := by
      obtain ⟨p, hp, hname⟩ := hused
      refine List.eq_nil_iff_forall_not_mem.2 fun u hu => ?_
      refine hpattern _ u (mem_candidates_iff_lists.1 hu).2 (p.rename x y) ?_
        (Placeholder.name_rename_of_eq hname)
      rw [Placeholder.ofTemplate_renameTemplate hplain]
      exact List.mem_map_of_mem hp
    rw [renamed, told_eq_nil hnew, hnone hused]
  · have hsame : Placeholder.renameTemplate x y template = template :=
      Placeholder.renameTemplate_eq_self fun p hp hname => hused ⟨p, hp, hname⟩
    refine told_congr ?_ (mem_targets_renamed hplain hbindings hx hy htemplate)
    rw [renamed, hsame]
    rfl

/-- The nodes of the resource tell what they told, those of the variables in the
order of the new names. -/
theorem toldBy_renamed
    (hfresh : Fresh index scope r y) (hbinds : Binds r property position template bindings x)
    (hnone : (∃ p ∈ Placeholder.ofTemplate template, p.name = x) →
      index.told scope id (subCall template bindings) = []) :
    (index.toldBy scope id (r.replaceAt property position (renamed x y template bindings))).Perm
        (index.toldBy scope id r) ∧
      (Entries.Ascending (Entries.renameKey x y bindings) →
        index.toldBy scope id (r.replaceAt property position (renamed x y template bindings)) =
          index.toldBy scope id r) := by
  obtain ⟨⟨value, path, hproperty, hnode⟩, hbindings, hx⟩ := hbinds
  have hmem : (path, subCall template bindings) ∈ nodesOf r :=
    (enumerates_nodesOf r).mem_iff.2 ⟨(property, position), value, hproperty, hnode⟩
  have hy : y ∉ Entries.names bindings := hfresh.no_variable _ hmem bindings rfl
  have htemplate := hfresh.no_template _ hmem template rfl
  have htold := told_renamed hfresh.plain hbindings hx hy htemplate hfresh.no_pattern hnone
  obtain ⟨front, back, hold, hnew⟩ := exists_toldBy_replaceAt index scope id hproperty hnode
    (unread_subCall template bindings) (unread_subCall _ _)
    (mem_targets_renamed hfresh.plain hbindings hx hy htemplate)
  rw [map_told_subCall] at hold hnew
  rw [renamed] at htold ⊢
  rw [hold, hnew, htold]
  constructor
  · refine List.Perm.append_right back (List.Perm.append_left front ?_)
    refine .cons _ (.cons _ (.cons _ ?_))
    exact ((perm_values_renamed hbindings hy).flatMap_right parts).map _
  · intro hascending
    rw [hascending.sort_eq, Entries.map_snd_renameKey]

/-- **Renaming a variable of a call changes neither the targets nor the candidates
that recovery finds**, but for their order, and the order stays when the new name
has the place of the old one.  If the template has a placeholder for the variable,
the call must have no candidates of its own. -/
theorem recover_renamed
    (hfresh : Fresh index scope r y) (hbinds : Binds r property position template bindings x)
    (hnone : (∃ p ∈ Placeholder.ofTemplate template, p.name = x) →
      index.told scope id (subCall template bindings) = []) :
    let r' := r.replaceAt property position (renamed x y template bindings)
    index.FindsAlike scope id r r' ∧
      (Entries.Ascending (Entries.renameKey x y bindings) → index.FindsSame scope id r r') := by
  obtain ⟨hperm, hsame⟩ := toldBy_renamed hfresh hbinds hnone
  exact ⟨.of_toldBy hperm, fun hascending => .of_toldBy (hsame hascending)⟩

/-- Three buckets by their names, one of which has a placeholder. -/
def buckets : PatternIndex :=
  ⟨.ofList [("$\x7bB\x7d-logs", .ofList ["Logs"]), ("blue", .ofList ["Blue"]),
    ("red", .ofList ["Red"])], .empty⟩

/-- The buckets, and the resource that the placeholder stands for. -/
def bucketScope : Scope :=
  ⟨.ofList ["B", "Blue", "Logs", "Red"], .empty, .empty⟩

/-- A policy with a call. -/
def policyWith (call : Value) : Resource :=
  (Resource.ofType "AWS::IAM::ManagedPolicy").withProperty "Names" (.list [.string "*", call])

/-- Variables whose values are the names of buckets. -/
def colors : Entries Value :=
  [("B", .sub "blue"), ("R", .sub "red")]

/-- A call with these variables. -/
def colorsCall : Value :=
  subCall "$\x7bB\x7d$\x7bR\x7d" colors

/-- A call whose template reads like the name of a bucket. -/
def maskedCall : Value :=
  subCall "$\x7bB\x7d-logs" [("B", .string "x")]

theorem fresh_policyWith :
    ∀ call ∈ [colorsCall, maskedCall], ∀ y ∈ ["C", "Z"],
      Fresh buckets bucketScope (policyWith call) y := by
  intro call hcall y hy
  have hplain : (Placeholder.mk y none).Plain := by
    clear hcall
    refine ⟨?_, ?_, ?_, ?_, ?_, nofun, nofun⟩ <;> revert y <;> decide
  have hpattern : ∀ text ∈ buckets.names.names ++ buckets.arns.names,
      ∀ p ∈ Placeholder.ofTemplate text, p.name ≠ y := by
    clear hcall hplain
    revert y
    decide +kernel
  refine ⟨hplain, ?_, ?_, fun text id h => hpattern text (List.mem_append.2 h.mem_names),
    ?_, ?_, ?_, ?_⟩
  all_goals
    clear hplain hpattern
    revert call y
    decide +kernel

theorem binds_policyWith :
    Binds (policyWith colorsCall) "Names" [1] "$\x7bB\x7d$\x7bR\x7d" colors "B" ∧
      Binds (policyWith maskedCall) "Names" [1] "$\x7bB\x7d-logs" [("B", .string "x")] "B" := by
  constructor
  · exact ⟨⟨_, _, rfl, rfl⟩, List.pairwise_pair.2 (by decide +kernel), by decide⟩
  · exact ⟨⟨_, _, rfl, rfl⟩, List.pairwise_singleton .., by decide⟩

/-- With `C` for `B` the two buckets are found in the same order, with `Z` in
another one. -/
theorem recover_renamed_colors :
    buckets.FindsSame bucketScope "Policy" (policyWith colorsCall)
        (policyWith (renamed "B" "C" "$\x7bB\x7d$\x7bR\x7d" colors)) ∧
      buckets.FindsAlike bucketScope "Policy" (policyWith colorsCall)
        (policyWith (renamed "B" "Z" "$\x7bB\x7d$\x7bR\x7d" colors)) := by
  have hnone : buckets.told bucketScope "Policy"
      (subCall "$\x7bB\x7d$\x7bR\x7d" colors) = [] := by decide +kernel
  have hascending : Entries.Ascending (Entries.renameKey "B" "C" colors) :=
    List.pairwise_pair.2 (by decide +kernel)
  constructor
  · exact (recover_renamed (fresh_policyWith colorsCall (by decide) "C" (by decide))
      binds_policyWith.1 fun _ => hnone).2 hascending
  · exact (recover_renamed (fresh_policyWith colorsCall (by decide) "Z" (by decide))
      binds_policyWith.1 fun _ => hnone).1

/-- The new name may have another place among the variables, and the template may
be the name of a bucket.  In either case recovery may find something else. -/
theorem not_forall_recover_renamed :
    (¬ ∀ (index : PatternIndex) (scope : Scope) (id : String) (r : Resource)
      (property : String) (position : List Nat) (template : String) (bindings : Entries Value)
      (x y : String),
      Fresh index scope r y → Binds r property position template bindings x →
        index.told scope id (subCall template bindings) = [] →
          index.FindsSame scope id r
            (r.replaceAt property position (renamed x y template bindings))) ∧
    ¬ ∀ (index : PatternIndex) (scope : Scope) (id : String) (r : Resource)
      (property : String) (position : List Nat) (template : String) (bindings : Entries Value)
      (x y : String),
      Fresh index scope r y → Binds r property position template bindings x →
        Entries.Ascending (Entries.renameKey x y bindings) →
          index.FindsSame scope id r
            (r.replaceAt property position (renamed x y template bindings)) := by
  constructor
  · intro h
    have hsame := (h buckets bucketScope "Policy" _ _ _ _ _ _ _
      (fresh_policyWith colorsCall (by decide) "Z" (by decide)) binds_policyWith.1
      (by decide +kernel)).targets
    revert hsame
    decide +kernel
  · intro h
    have hsame := (h buckets bucketScope "Policy" _ _ _ _ _ _ _
      (fresh_policyWith maskedCall (by decide) "Z" (by decide)) binds_policyWith.2
      (List.pairwise_singleton ..)).targets
    revert hsame
    decide +kernel

end Renaming

end PatternIndex
end CloudTemplate
