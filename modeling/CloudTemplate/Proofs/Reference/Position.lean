import CloudTemplate.Reference.Site
import CloudTemplate.Proofs.Enumeration

/-!
# Positions of references

A position in a value says, level by level, which child to go to; the empty
position is the value itself (`Value.nodeAt?`).  A reference stands at a
position and, as the template of `Fn::Sub` may hold several, under an index
(`Value.ReferenceAt`, `Value.SiteAt`).

Main statement: the sites of a value are its references, each once, in the
lexicographic order of their places (`Value.enumerates_sites`).
-/

namespace CloudTemplate
namespace Value

/-- Induction on values, with the hypothesis for all parts. -/
@[elab_as_elim]
theorem induction
    {motive : Value → Prop}
    (null : motive .null)
    (bool : ∀ value, motive (.bool value))
    (number : ∀ value, motive (.number value))
    (string : ∀ value, motive (.string value))
    (list : ∀ items, (∀ item ∈ items, motive item) → motive (.list items))
    (map : ∀ entries, (∀ entry ∈ entries, motive entry.2) → motive (.map entries))
    (ref : ∀ target, motive (.ref target))
    (attr : ∀ target name, motive (.attr target name))
    (condition : ∀ name, motive (.condition name))
    (apply : ∀ f arguments, (∀ argument ∈ arguments, motive argument) →
      motive (.apply f arguments)) :
    ∀ v, motive v := by
  refine @Value.rec motive (fun items => ∀ item ∈ items, motive item)
    (fun entries => ∀ entry ∈ entries, motive entry.2) (fun entry => motive entry.2)
    null bool number string list map ref attr condition apply ?_ ?_ ?_ ?_ ?_
  · intro item hitem
    cases hitem
  · intro head rest hhead hrest item hitem
    rcases List.mem_cons.1 hitem with heq | hitem
    · exact heq ▸ hhead
    · exact hrest item hitem
  · intro entry hentry
    cases hentry
  · intro head rest hhead hrest entry hentry
    rcases List.mem_cons.1 hentry with heq | hentry
    · exact heq ▸ hhead
    · exact hrest entry hentry
  · intro name v hv
    exact hv

/-- The children of a node with their paths, in document order. -/
def children (path : String) : Value → List (String × Value)
  | .list items => items.mapIdx fun index item => (itemPath path index, item)
  | .map entries => entries.map fun entry => (childPath path entry.1, entry.2)
  | .apply f [argument] => [(childPath path f.key, argument)]
  | .apply f arguments =>
      arguments.mapIdx fun index argument => (itemPath (childPath path f.key) index, argument)
  | _ => []

/-- The node at a position, with its path. -/
def nodeAt? (path : String) (v : Value) : List Nat → Option (String × Value)
  | [] => some (path, v)
  | index :: position =>
      match (children path v)[index]? with
      | some child => nodeAt? child.1 child.2 position
      | none => none

/-- The reference of this form and target that a node makes by itself.  The
index counts the placeholders of a template; those that name a pseudo parameter
or a variable of the same call are no references. -/
inductive ReferenceAt : Value → Nat → ReferenceForm → String → Prop
  | ref (target : String) : ReferenceAt (.ref target) 0 .ref target
  | attr (target name : String) : ReferenceAt (.attr target name) 0 (.attr name) target
  | condition (name : String) : ReferenceAt (.condition name) 0 .condition name
  | placeholder
      {template : String} {rest : List Value} {index : Nat} {p : Placeholder}
      (hindex : (Placeholder.ofTemplate template)[index]? = some p)
      (hpseudo : p.name ∉ pseudoParameters)
      (hfree : ∀ bindings more, rest = .map bindings :: more →
        p.name ∉ Entries.names bindings) :
      ReferenceAt (.apply .sub (.string template :: rest)) index (.placeholder p.attr) p.name

/-- The site stands at a position of a value, under an index. -/
def SiteAt (path : String) (v : Value) (place : List Nat × Nat) (site : ReferenceSite) : Prop :=
  ∃ node, nodeAt? path v place.1 = some (site.path, node) ∧
    node.ReferenceAt place.2 site.form site.target

/-- The order of the document: a node before its children, children by their
indices, and the placeholders of one template by theirs. -/
abbrev DocumentOrder : List Nat × Nat → List Nat × Nat → Prop :=
  Prod.Lex (List.Lex (· < ·)) (· < ·)

section Nodes

theorem nodesOfItems_eq_flatMap (path : String) (start : Nat) (items : List Value) :
    nodesOfItems path start items =
      (items.mapIdx fun index item => (itemPath path (start + index), item)).flatMap
        fun child => child.2.nodes child.1 := by
  induction items generalizing start with
  | nil => rfl
  | cons head rest ih =>
      rw [nodesOfItems, ih, List.mapIdx_cons, List.flatMap_cons]
      simp only [Nat.add_zero, Nat.add_assoc, Nat.add_comm 1]

theorem nodesOfEntries_eq_flatMap (path : String) (entries : Entries Value) :
    nodesOfEntries path entries =
      (entries.map fun entry => (childPath path entry.1, entry.2)).flatMap
        fun child => child.2.nodes child.1 := by
  induction entries with
  | nil => rfl
  | cons head rest ih =>
      rw [nodesOfEntries, ih]
      rfl

/-- A node comes before what lies below its children. -/
theorem nodes_eq_cons (path : String) (v : Value) :
    v.nodes path =
      (path, v) :: (children path v).flatMap fun child => child.2.nodes child.1 := by
  cases v with
  | list items => simp [nodes, children, nodesOfItems_eq_flatMap]
  | map entries => rw [nodes, nodesOfEntries_eq_flatMap, children]
  | apply f arguments =>
      match arguments with
      | [] => simp [nodes, children, nodesOfItems]
      | [argument] => simp [nodes, children]
      | first :: second :: rest => simp [nodes, children, nodesOfItems_eq_flatMap]
  | _ => rfl

theorem snd_mem_of_mem_mapIdx
    {items : List Value} {f : Nat → String} {child : String × Value}
    (h : child ∈ items.mapIdx fun index item => (f index, item)) : child.2 ∈ items := by
  obtain ⟨index, hindex, rfl⟩ := List.mem_mapIdx.1 h
  exact List.getElem_mem hindex

theorem mem_of_mem_children_apply
    {path : String} {f : Intrinsic} {arguments : List Value} {child : String × Value}
    (h : child ∈ children path (.apply f arguments)) : child.2 ∈ arguments := by
  match arguments, h with
  | [argument], h =>
      rw [List.mem_singleton.1 h]
      exact List.mem_singleton_self argument
  | [], h => exact snd_mem_of_mem_mapIdx h
  | _ :: _ :: _, h => exact snd_mem_of_mem_mapIdx h

/-- The nodes of a value are what stands at its positions, if that is so for
its children. -/
theorem enumerates_nodes_of_children
    {path : String} {v : Value}
    (h : ∀ child ∈ children path v,
      Enumerates (List.Lex (· < ·))
        (fun position node => nodeAt? child.1 child.2 position = some node)
        (child.2.nodes child.1)) :
    Enumerates (List.Lex (· < ·)) (fun position node => nodeAt? path v position = some node)
      (v.nodes path) := by
  have hbelow := ((Enumerates.getElem? (children path v)).flatMap h).rename
    (List.Lex (· < ·)) (fun place => place.1 :: place.2) fun place place' hlex => by
      cases hlex with
      | left _ _ hindex => exact List.Lex.rel hindex
      | right _ hposition => exact List.Lex.cons hposition
  rw [nodes_eq_cons]
  refine ((Enumerates.singleton _ [] (path, v)).append hbelow ?_).congr
    fun position node => ?_
  · rintro _ _ position node ⟨rfl, -⟩ ⟨place, rfl, -⟩
    exact List.Lex.nil
  · cases position with
    | nil => simp [nodeAt?, eq_comm]
    | cons index position =>
        constructor
        · rintro (⟨heq, -⟩ | ⟨place, heq, child, hchild, hnode⟩)
          · cases heq
          · cases heq
            rw [nodeAt?, hchild]
            exact hnode
        · intro hnode
          rw [nodeAt?] at hnode
          split at hnode
          · next child hchild => exact Or.inr ⟨(index, position), rfl, child, hchild, hnode⟩
          · cases hnode

/-- The nodes of a value are what stands at its positions. -/
theorem enumerates_nodes (path : String) (v : Value) :
    Enumerates (List.Lex (· < ·)) (fun position node => nodeAt? path v position = some node)
      (v.nodes path) := by
  induction v using Value.induction generalizing path with
  | list items ih =>
      exact enumerates_nodes_of_children fun child hchild =>
        ih child.2 (snd_mem_of_mem_mapIdx hchild) child.1
  | map entries ih =>
      refine enumerates_nodes_of_children fun child hchild => ?_
      obtain ⟨entry, hentry, rfl⟩ := List.mem_map.1 hchild
      exact ih entry hentry _
  | apply f arguments ih =>
      exact enumerates_nodes_of_children fun child hchild =>
        ih child.2 (mem_of_mem_children_apply hchild) child.1
  | _ => exact enumerates_nodes_of_children fun child hchild => by cases hchild

end Nodes

section Sites

theorem hasName_subVariables?_iff
    {template name : String} {rest : List Value} :
    Entries.hasName name
        ((subVariables? (.apply .sub (.string template :: rest))).getD []) = true ↔
      ∃ bindings more, rest = .map bindings :: more ∧ name ∈ Entries.names bindings := by
  unfold subVariables?
  split
  · next bindings more heq =>
    cases heq
    rw [Option.getD_some, Entries.hasName_iff]
    constructor
    · intro hname
      exact ⟨bindings, more, rfl, hname⟩
    · rintro ⟨bindings', more', heq, hname⟩
      cases heq
      exact hname
  · next hnot =>
    constructor
    · intro hname
      cases hname
    · rintro ⟨bindings, more, rfl, -⟩
      exact absurd rfl (hnot _ bindings more)

theorem enumerates_placeholderSites (path template : String) (rest : List Value) :
    Enumerates (fun i j : Nat => i < j)
      (fun index site => site.path = path ∧
        (Value.apply .sub (.string template :: rest)).ReferenceAt index site.form site.target)
      (placeholderSites path (.apply .sub (.string template :: rest))) := by
  refine ((Enumerates.getElem? (Placeholder.ofTemplate template)).filterMap _).congr
    fun index site => ?_
  have hskipped : ∀ name : String,
      (isPseudoParameter name || Entries.hasName name
        ((subVariables? (.apply .sub (.string template :: rest))).getD [])) = true ↔
      name ∈ pseudoParameters ∨
        ∃ bindings more, rest = .map bindings :: more ∧ name ∈ Entries.names bindings := by
    intro name
    rw [Bool.or_eq_true, hasName_subVariables?_iff, isPseudoParameter_iff]
  constructor
  · rintro ⟨p, hindex, hsite⟩
    split at hsite
    · cases hsite
    · next hnot =>
      cases hsite
      rw [hskipped, not_or] at hnot
      exact ⟨rfl, .placeholder hindex hnot.1 fun bindings more heq hname =>
        hnot.2 ⟨bindings, more, heq, hname⟩⟩
  · obtain ⟨found, target, form⟩ := site
    rintro ⟨rfl, href⟩
    cases href with
    | @placeholder _ _ _ p hindex hpseudo hfree =>
        refine ⟨p, hindex, if_neg ?_⟩
        rw [hskipped, not_or]
        exact ⟨hpseudo, fun ⟨bindings, more, heq, hname⟩ => hfree bindings more heq hname⟩

theorem placeholderSites_eq_nil
    {path : String} {v : Value} (h : ∀ template rest, v ≠ .apply .sub (.string template :: rest)) :
    placeholderSites path v = [] := by
  unfold placeholderSites subTemplate?
  split
  · rfl
  · next hfound =>
    split at hfound
    · next template rest => exact absurd rfl (h template rest)
    · cases hfound

/-- A node that makes one reference. -/
theorem enumerates_single
    {path target : String} {form : ReferenceForm} {v : Value}
    (h : ∀ index form' target', v.ReferenceAt index form' target' ↔
      index = 0 ∧ form' = form ∧ target' = target) :
    Enumerates (fun i j : Nat => i < j)
      (fun index (site : ReferenceSite) =>
        site.path = path ∧ v.ReferenceAt index site.form site.target)
      [⟨path, target, form⟩] := by
  refine (Enumerates.singleton _ 0 _).congr fun index site => ?_
  rw [h]
  constructor
  · rintro ⟨rfl, rfl⟩
    exact ⟨rfl, rfl, rfl, rfl⟩
  · obtain ⟨found, target', form'⟩ := site
    rintro ⟨rfl, rfl, rfl, rfl⟩
    exact ⟨rfl, rfl⟩

theorem enumerates_ownSites (path : String) (v : Value) :
    Enumerates (fun i j : Nat => i < j)
      (fun index site => site.path = path ∧ v.ReferenceAt index site.form site.target)
      (v.ownSites path) := by
  cases v with
  | ref target =>
      refine enumerates_single fun index form' target' => ⟨fun href => ?_, ?_⟩
      · cases href
        exact ⟨rfl, rfl, rfl⟩
      · rintro ⟨rfl, rfl, rfl⟩
        exact .ref target'
  | attr target name =>
      refine enumerates_single fun index form' target' => ⟨fun href => ?_, ?_⟩
      · cases href
        exact ⟨rfl, rfl, rfl⟩
      · rintro ⟨rfl, rfl, rfl⟩
        exact .attr target' name
  | condition name =>
      refine enumerates_single fun index form' target' => ⟨fun href => ?_, ?_⟩
      · cases href
        exact ⟨rfl, rfl, rfl⟩
      · rintro ⟨rfl, rfl, rfl⟩
        exact .condition target'
  | apply f arguments =>
      by_cases hsub : ∃ template rest, f = .sub ∧ arguments = .string template :: rest
      · obtain ⟨template, rest, rfl, rfl⟩ := hsub
        exact enumerates_placeholderSites path template rest
      · have hnone : placeholderSites path (.apply f arguments) = [] :=
          placeholderSites_eq_nil fun template rest heq => by
            cases heq
            exact hsub ⟨template, rest, rfl, rfl⟩
        rw [ownSites, hnone]
        refine Enumerates.nil fun index site href => ?_
        obtain ⟨found, target, form⟩ := site
        cases href.2 with
        | placeholder => exact hsub ⟨_, _, rfl, rfl⟩
  | _ => exact Enumerates.nil fun index site href => by cases href.2

/-- **The sites of a value are its references**, each once, in document
order. -/
theorem enumerates_sites (path : String) (v : Value) :
    Enumerates DocumentOrder (fun place site => SiteAt path v place site) (v.sites path) := by
  have hnested := (enumerates_nodes path v).flatMap
    fun node _ => enumerates_ownSites node.1 node.2
  refine hnested.congr fun place site => ?_
  constructor
  · rintro ⟨⟨found, node⟩, hnode, rfl, href⟩
    exact ⟨node, hnode, href⟩
  · rintro ⟨node, hnode, href⟩
    exact ⟨(site.path, node), hnode, rfl, href⟩

end Sites

end Value
end CloudTemplate
