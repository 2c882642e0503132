import CloudTemplate.Proofs.Reference.Replacement

/-!
# References by parts, and the scope of variables

What a value refers to is what its nodes refer to, wherever it stands
(`Value.map_target_sites`).  A call of `Fn::Sub` may bind variables by a map
(`Value.subCall`).  It refers to what its template names and the map does not
bind, and then to what the values of the map refer to (`Value.sites_subCall`).

Main statement: the sites of a value are its references in document order, those
of every part are the ones that it would have alone, and the map of a call
matters for its own template only (`Value.sites_scoped`).
-/

namespace CloudTemplate
namespace Value

/-- The children of a node, without their paths. -/
def childValues : Value → List Value
  | .list items => items
  | .map entries => entries.map Prod.snd
  | .apply _ arguments => arguments
  | _ => []

/-- The nodes of a value, without their paths. -/
def parts (v : Value) : List Value :=
  (v.nodes "").map Prod.snd

/-- What a value refers to, in document order. -/
def targets (v : Value) : List String :=
  (v.sites "").map ReferenceSite.target

/-- What a node refers to by itself. -/
def ownTargets (v : Value) : List String :=
  (v.ownSites "").map ReferenceSite.target

variable {v : Value} {path p : String} {position : List Nat}

section Parts

theorem map_snd_children (path : String) (v : Value) :
    (children path v).map Prod.snd = v.childValues := by
  cases v with
  | list items =>
      refine List.ext_getElem? fun i => ?_
      simp [children, childValues]
  | map entries => simp [children, childValues]
  | apply f arguments => exact map_snd_children_apply path f arguments
  | _ => rfl

theorem map_snd_nodes_of_children
    (h : ∀ child ∈ v.childValues, ∀ path, (child.nodes path).map Prod.snd = child.parts)
    (path : String) : (v.nodes path).map Prod.snd = v :: v.childValues.flatMap parts := by
  have hchildren : ∀ child ∈ children path v,
      (child.2.nodes child.1).map Prod.snd = child.2.parts := by
    intro child hchild
    refine h child.2 ?_ child.1
    rw [← map_snd_children path v]
    exact List.mem_map_of_mem hchild
  rw [nodes_eq_cons, List.map_cons, List.map_flatMap, List.flatMap_congr hchildren,
    ← map_snd_children path v, List.flatMap_map]

/-- The nodes are the same under all paths. -/
theorem map_snd_nodes (path : String) (v : Value) : (v.nodes path).map Prod.snd = v.parts := by
  induction v using Value.induction generalizing path with
  | list items ih =>
      have h := map_snd_nodes_of_children (v := .list items)
        fun item hitem path => ih item hitem path
      exact (h path).trans (h "").symm
  | map entries ih =>
      have h := map_snd_nodes_of_children (v := .map entries) fun item hitem path => by
        obtain ⟨entry, hentry, rfl⟩ := List.mem_map.1 hitem
        exact ih entry hentry path
      exact (h path).trans (h "").symm
  | apply f arguments ih =>
      have h := map_snd_nodes_of_children (v := .apply f arguments)
        fun argument hargument path => ih argument hargument path
      exact (h path).trans (h "").symm
  | _ => rfl

theorem parts_eq_cons (v : Value) : v.parts = v :: v.childValues.flatMap parts :=
  map_snd_nodes_of_children (fun child _ path => map_snd_nodes path child) ""

theorem map_target_ownSites (path : String) (v : Value) :
    (v.ownSites path).map ReferenceSite.target = v.ownTargets := by
  cases v with
  | apply f arguments =>
      show (placeholderSites path _).map _ = (placeholderSites "" _).map _
      unfold placeholderSites
      split
      · rfl
      · simp only [List.map_filterMap]
        refine List.filterMap_congr fun p _ => ?_
        split_ifs
        · rfl
        · rfl
  | _ => rfl

/-- What a value refers to is what its nodes refer to, under all paths. -/
theorem map_target_sites (path : String) (v : Value) :
    (v.sites path).map ReferenceSite.target = v.parts.flatMap ownTargets := by
  rw [sites, List.map_flatMap, ← map_snd_nodes path v, List.flatMap_map]
  exact List.flatMap_congr fun node _ => map_target_ownSites node.1 node.2

theorem targets_eq_flatMap (v : Value) : v.targets = v.parts.flatMap ownTargets :=
  map_target_sites "" v

end Parts

section Calls

/-- A call of `Fn::Sub` with a template and variables. -/
def subCall (template : String) (bindings : Entries Value) : Value :=
  .apply .sub [.string template, .map bindings]

/-- The references in a template to what the variables do not bind. -/
def freeSites (path template : String) (bindings : Entries Value) : List ReferenceSite :=
  ((Placeholder.ofTemplate template).filter fun p =>
    p.name ∉ pseudoParameters ∧ p.name ∉ Entries.names bindings).map fun p =>
      ⟨path, p.name, .placeholder p.attr⟩

/-- The references in the values of the variables of a call. -/
def bindingSites (path : String) (bindings : Entries Value) : List ReferenceSite :=
  bindings.flatMap fun binding =>
    binding.2.sites (childPath (itemPath (childPath path Intrinsic.sub.key) 1) binding.1)

theorem unread_subCall (template : String) (bindings : Entries Value) :
    (subCall template bindings).Unread := ⟨rfl, rfl⟩

theorem ownSites_subCall (path template : String) (bindings : Entries Value) :
    (subCall template bindings).ownSites path = freeSites path template bindings := by
  show (Placeholder.ofTemplate template).filterMap _ = _
  rw [freeSites, ← List.filterMap_eq_map, List.filterMap_filter]
  refine List.filterMap_congr fun p _ => ?_
  have hskipped : (isPseudoParameter p.name || Entries.hasName p.name bindings) = true ↔
      p.name ∈ pseudoParameters ∨ p.name ∈ Entries.names bindings := by
    rw [Bool.or_eq_true, Entries.hasName_iff, isPseudoParameter_iff]
  show (if (isPseudoParameter p.name || Entries.hasName p.name bindings) = true then none
    else some _) = _
  by_cases hbound : p.name ∈ pseudoParameters ∨ p.name ∈ Entries.names bindings
  · rw [if_pos (hskipped.2 hbound), if_neg (by simpa [← not_or] using hbound)]
  · rw [if_neg (mt hskipped.1 hbound), if_pos (by simpa [← not_or] using hbound)]
    rfl

/-- A call refers to what its template names and it does not bind, and to what the
values of its variables refer to. -/
theorem sites_subCall (path template : String) (bindings : Entries Value) :
    (subCall template bindings).sites path =
      freeSites path template bindings ++ bindingSites path bindings := by
  have hmap (path : String) : (map bindings).sites path =
      bindings.flatMap fun binding => binding.2.sites (childPath path binding.1) := by
    rw [sites_eq_append, children, List.flatMap_map]
    rfl
  have hchildren : children path (subCall template bindings) =
      [(itemPath (childPath path Intrinsic.sub.key) 0, string template),
        (itemPath (childPath path Intrinsic.sub.key) 1, map bindings)] := rfl
  rw [sites_eq_append, ownSites_subCall, hchildren, List.flatMap_cons, List.flatMap_singleton,
    hmap]
  rfl

end Calls

section Scope

variable {p : String} {node : Value} {position : List Nat}

theorem isInfix_sites_of_mem_children {child : String × Value} (h : child ∈ children path v) :
    child.2.sites child.1 <:+: v.sites path := by
  obtain ⟨before, after, hsplit⟩ := List.append_of_mem h
  rw [sites_eq_append path, hsplit, List.flatMap_append, List.flatMap_cons]
  exact ((List.prefix_append ..).isInfix.trans (List.suffix_append ..).isInfix).trans
    (List.suffix_append ..).isInfix

/-- The references of a part are among those of the whole, one after the other. -/
theorem isInfix_sites_of_nodeAt?
    (hnode : v.nodeAt? path position = some (p, node)) :
    node.sites p <:+: v.sites path := by
  induction position generalizing path v with
  | nil =>
      cases hnode
      exact List.infix_rfl
  | cons index position ih =>
      rw [nodeAt?] at hnode
      split at hnode
      · next child hchild =>
        exact (ih hnode).trans (isInfix_sites_of_mem_children (List.mem_of_getElem? hchild))
      · cases hnode

theorem mem_names_references_iff {name : String} (path : String) :
    name ∈ v.references.names ↔ ∃ site ∈ v.sites path, site.target = name := by
  rw [references, NameSet.mem_names_ofList, map_target_sites, ← map_target_sites path,
    List.mem_map]

theorem isLiteral_iff (path : String) : v.isLiteral = true ↔ v.sites path = [] := by
  have hnames : v.isLiteral = true ↔ v.references.names = [] := by
    rw [isLiteral, NameTable.isEmpty, List.isEmpty_iff, NameTable.names, Entries.names,
      List.map_eq_nil_iff]
  rw [hnames, List.eq_nil_iff_forall_not_mem, List.eq_nil_iff_forall_not_mem]
  simp only [mem_names_references_iff path, not_exists, not_and]
  exact ⟨fun h site hsite => h site.target site hsite rfl,
    fun h _ site hsite => (h site hsite).elim⟩

/-- How the references of a value are listed, and how far the variables of its calls
reach. -/
structure Scoped (path : String) (v : Value) : Prop where
  /-- Each reference stands once, in document order. -/
  sites : Enumerates DocumentOrder (fun place site => SiteAt path v place site) (v.sites path)
  /-- A part has the references that it would have alone, whatever is bound around it. -/
  part : ∀ position p node, v.nodeAt? path position = some (p, node) →
    node.sites p <:+: v.sites path
  /-- A call has the references of its template that it does not bind, and those of the
  values of its variables.  What it binds does not matter elsewhere. -/
  call : ∀ position p template bindings,
    v.nodeAt? path position = some (p, subCall template bindings) →
      ∃ before after,
        v.sites path =
          before ++ (freeSites p template bindings ++ bindingSites p bindings) ++ after ∧
        ∀ template' bindings', (replaceAt (subCall template' bindings') position v).sites path =
          before ++ (freeSites p template' bindings' ++ bindingSites p bindings') ++ after
  /-- The references are the targets, each once. -/
  references : ∀ name, name ∈ v.references.names ↔ ∃ site ∈ v.sites path, site.target = name
  /-- A value is literal if it refers to nothing. -/
  isLiteral : v.isLiteral = true ↔ v.sites path = []

/-- **The sites of a value are its references**, each once and in document order, and
the variables of a call reach no further than its template. -/
theorem sites_scoped (path : String) (v : Value) : Scoped path v := by
  refine ⟨enumerates_sites path v, fun _ _ _ => isInfix_sites_of_nodeAt?, ?_,
    fun _ => mem_names_references_iff path, isLiteral_iff path⟩
  intro position p template bindings hnode
  obtain ⟨before, after, hsites, hreplaced⟩ :=
    exists_sites_replaceAt hnode (unread_subCall template bindings)
  refine ⟨before, after, ?_, fun template' bindings' => ?_⟩
  · rw [hsites, sites_subCall]
  · rw [hreplaced _ (unread_subCall ..), sites_subCall]

/-- Each of the two calls binds one of the names, and the value of the inner variable is
a reference too. -/
example :
    (subCall "$\x7bX\x7d$\x7bY\x7d"
      [("X", subCall "$\x7bX\x7d$\x7bY\x7d" [("Y", .ref "Z")])]).targets = ["Y", "X", "Z"] := by
  decide +kernel

end Scope

end Value
end CloudTemplate
