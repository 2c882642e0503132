import CloudTemplate.Proofs.Reference.Placeholder
import CloudTemplate.Proofs.Reference.Position

/-!
# Replacing a reference in a value

The node at a position of a value can be replaced by another one
(`Value.replaceAt`).  A call of `Fn::Sub` reads its template and the names of its
variables from its arguments, so a replacement by a node that is neither a text
nor a map, of such a node, leaves what the nodes above refer to as it is
(`Value.ownSites_modifyChild`).

Main statement: the references of a value are those in front of the position,
those of the node there, and those behind it, whatever stands at the position
(`Value.exists_sites_replaceAt`).
-/

namespace CloudTemplate
namespace Value

/-- Change the child with an index, if there is one. -/
def modifyChild (g : Value → Value) (index : Nat) : Value → Value
  | .list items => .list (items.modify index g)
  | .map entries => .map (entries.modify index fun entry => (entry.1, g entry.2))
  | .apply f arguments => .apply f (arguments.modify index g)
  | v => v

/-- Replace the node at a position, if there is one. -/
def replaceAt (new : Value) : List Nat → Value → Value
  | [], _ => new
  | index :: position, v => modifyChild (replaceAt new position) index v

/-- The names under which a map binds values. -/
def boundNames? : Value → Option (List String)
  | .map entries => some (Entries.names entries)
  | _ => none

/-- A call cannot tell the values from each other: they are the same text, or
bind the same names, or are neither texts nor maps. -/
structure Alike (v w : Value) : Prop where
  string?_eq : v.string? = w.string?
  boundNames?_eq : v.boundNames? = w.boundNames?

/-- No call reads the value: it is neither a text nor a map. -/
structure Unread (v : Value) : Prop where
  string?_eq_none : v.string? = none
  boundNames?_eq_none : v.boundNames? = none

variable {path p : String} {v w old new : Value} {position : List Nat} {index : Nat}
variable {g : Value → Value}

theorem Alike.refl (v : Value) : v.Alike v := ⟨rfl, rfl⟩

theorem Unread.alike (hv : v.Unread) (hw : w.Unread) : v.Alike w :=
  ⟨hv.string?_eq_none.trans hw.string?_eq_none.symm,
    hv.boundNames?_eq_none.trans hw.boundNames?_eq_none.symm⟩

section Calls

variable {f : Intrinsic} {arguments arguments' : List Value}

theorem subTemplate?_apply (f : Intrinsic) (arguments : List Value) :
    (apply f arguments).subTemplate? =
      if f = .sub then arguments[0]?.bind string? else none := by
  cases f with
  | sub =>
      cases arguments with
      | nil => rfl
      | cons first rest => cases first <;> rfl
  | _ => rfl

theorem hasName_subVariables? (name : String) (f : Intrinsic) (arguments : List Value) :
    Entries.hasName name ((apply f arguments).subVariables?.getD []) =
      if f = .sub then ((arguments[1]?.bind boundNames?).getD []).contains name else false := by
  cases f with
  | sub =>
      match arguments with
      | [] | [_] => rfl
      | _ :: second :: _ =>
          cases second with
          | map entries =>
              show Entries.hasName name entries = (Entries.names entries).contains name
              rw [Bool.eq_iff_iff, Entries.hasName_iff, List.contains_iff_mem]
          | _ => rfl
  | _ => rfl

/-- A call that cannot tell the new child from the old one keeps its
placeholders. -/
theorem placeholderSites_modify
    (h : ∀ argument, arguments[index]? = some argument → (g argument).Alike argument) :
    placeholderSites path (apply f (arguments.modify index g)) =
      placeholderSites path (apply f arguments) := by
  -- Whatever a call reads of an argument is the same.
  have hread : ∀ {α : Type} (read : Value → Option α) (i : Nat),
      (∀ v w : Value, v.Alike w → read v = read w) →
        (arguments.modify index g)[i]?.bind read = arguments[i]?.bind read := by
    intro α read i hsame
    rw [List.getElem?_modify]
    cases hargument : arguments[i]? with
    | none => rfl
    | some argument =>
        by_cases hindex : index = i
        · subst hindex
          simpa using hsame _ _ (h argument hargument)
        · simp [hindex]
  unfold placeholderSites
  simp only [subTemplate?_apply, hasName_subVariables?, hread string? 0 fun _ _ => (·.string?_eq),
    hread boundNames? 1 fun _ _ => (·.boundNames?_eq)]

end Calls

section Children

theorem modifyChild_modifyChild (g g' : Value → Value) (index : Nat) (v : Value) :
    modifyChild g' index (modifyChild g index v) = modifyChild (g' ∘ g) index v := by
  cases v with
  | list items => exact congrArg list (List.modify_modify_eq ..)
  | map entries => exact congrArg map (List.modify_modify_eq ..)
  | apply f arguments => exact congrArg (apply f) (List.modify_modify_eq ..)
  | _ => rfl

theorem children_modifyChild (g : Value → Value) (index : Nat) (v : Value) :
    children path (modifyChild g index v) =
      (children path v).modify index fun child => (child.1, g child.2) := by
  have hitems : ∀ (items : List Value) (paths : Nat → String),
      ((items.modify index g).mapIdx fun i item => (paths i, item)) =
        (items.mapIdx fun i item => (paths i, item)).modify index
          fun child => (child.1, g child.2) := by
    intro items paths
    refine List.ext_getElem? fun i => ?_
    simp only [List.getElem?_mapIdx, List.getElem?_modify]
    cases items[i]? <;> by_cases hindex : index = i <;> simp [hindex]
  cases v with
  | list items => exact hitems items _
  | map entries =>
      refine List.ext_getElem? fun i => ?_
      simp only [modifyChild, children, List.getElem?_map, List.getElem?_modify]
      cases entries[i]? <;> by_cases hindex : index = i <;> simp [hindex]
  | apply f arguments =>
      rcases arguments with _ | ⟨first, _ | ⟨second, rest⟩⟩
      · cases index <;> rfl
      · cases index with
        | zero => rfl
        | succ index => cases index <;> rfl
      · have hmodify := hitems (first :: second :: rest) (itemPath (childPath path f.key))
        cases index with
        | zero => exact hmodify
        | succ index => cases index <;> exact hmodify
  | _ => cases index <;> rfl

theorem alike_modifyChild (g : Value → Value) (index : Nat) (v : Value) :
    (modifyChild g index v).Alike v := by
  cases v with
  | map entries =>
      refine ⟨rfl, congrArg some (List.ext_getElem? fun i => ?_)⟩
      simp only [Entries.names, List.getElem?_map, List.getElem?_modify]
      cases entries[i]? <;> by_cases hindex : index = i <;> simp [hindex]
  | _ => exact ⟨rfl, rfl⟩

theorem map_snd_children_apply (path : String) (f : Intrinsic) (arguments : List Value) :
    (children path (.apply f arguments)).map Prod.snd = arguments := by
  match arguments with
  | [] | [_] => rfl
  | first :: second :: rest =>
      refine List.ext_getElem? fun i => ?_
      show (List.map Prod.snd (List.mapIdx _ (first :: second :: rest)))[i]? = _
      rw [List.getElem?_map, List.getElem?_mapIdx, Option.map_map]
      exact Option.map_id'

/-- A node keeps its own references when a child is changed to one that is
alike. -/
theorem ownSites_modifyChild
    (h : ∀ child, (children path v)[index]? = some child → (g child.2).Alike child.2) :
    (modifyChild g index v).ownSites path = v.ownSites path := by
  cases v with
  | apply f arguments =>
      refine placeholderSites_modify fun argument hargument => ?_
      rw [← map_snd_children_apply path f arguments, List.getElem?_map,
        Option.map_eq_some_iff] at hargument
      obtain ⟨child, hchild, rfl⟩ := hargument
      exact h child hchild
  | _ => rfl

end Children

section Replacement

/-- Of two replacements at a position, the second one counts. -/
theorem replaceAt_replaceAt (old new : Value) (position : List Nat) (v : Value) :
    replaceAt new position (replaceAt old position v) = replaceAt new position v := by
  induction position generalizing v with
  | nil => rfl
  | cons index position ih =>
      have hsame : replaceAt new position ∘ replaceAt old position = replaceAt new position :=
        funext ih
      rw [replaceAt, replaceAt, modifyChild_modifyChild, hsame]
      rfl

theorem sites_eq_append (path : String) (v : Value) :
    v.sites path = v.ownSites path ++ (children path v).flatMap fun child =>
      child.2.sites child.1 := by
  unfold sites
  rw [nodes_eq_cons, List.flatMap_cons, List.flatMap_assoc]

theorem alike_replaceAt
    (hnode : nodeAt? path v position = some (p, old)) (hold : old.Unread) (hnew : new.Unread) :
    (replaceAt new position v).Alike v := by
  cases position with
  | nil =>
      cases hnode
      exact hnew.alike hold
  | cons index position => exact alike_modifyChild ..

/-- **The references of a value are those around a position and those at it.** -/
theorem exists_sites_replaceAt
    (hnode : nodeAt? path v position = some (p, old)) (hold : old.Unread) :
    ∃ before after, v.sites path = before ++ old.sites p ++ after ∧
      ∀ new : Value, new.Unread →
        (replaceAt new position v).sites path = before ++ new.sites p ++ after := by
  induction position generalizing path v with
  | nil =>
      cases hnode
      exact ⟨[], [], by simp, fun new _ => by simp [replaceAt]⟩
  | cons index position ih =>
      rw [nodeAt?] at hnode
      split at hnode
      · next child hchild =>
        obtain ⟨before, after, hold', hnew⟩ := ih hnode
        obtain ⟨hindex, hget⟩ := List.getElem?_eq_some_iff.1 hchild
        have hsplit : children path v = (children path v).take index ++
            child :: (children path v).drop (index + 1) := by
          rw [← hget, ← List.drop_eq_getElem_cons hindex, List.take_append_drop]
        refine ⟨v.ownSites path ++ ((children path v).take index).flatMap
            (fun child => child.2.sites child.1) ++ before,
          after ++ ((children path v).drop (index + 1)).flatMap
            fun child => child.2.sites child.1, ?_, fun new hunread => ?_⟩
        · rw [sites_eq_append]
          conv_lhs => rw [hsplit]
          simp [hold']
        · have hown : (replaceAt new (index :: position) v).ownSites path = v.ownSites path :=
            ownSites_modifyChild fun child' hchild' => by
              cases hchild.symm.trans hchild'
              exact alike_replaceAt hnode hold hunread
          rw [sites_eq_append, hown, replaceAt, children_modifyChild,
            List.modify_eq_take_cons_drop hindex]
          simp [hget, hnew new hunread]
      · cases hnode

end Replacement

end Value
end CloudTemplate
