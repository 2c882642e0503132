import CloudTemplate.Document
import CloudTemplate.Proofs.Graph.Blueprint
import CloudTemplate.Proofs.Template.Record

/-!
# Orders of documents

A document lists resources in an order that is given, or in the order of their
creation.  An order of a resource set has to list every id once.  The check goes
through the order once and then looks for ids that are left, so of all faults it
reports the one that comes first (`OrderFault.FirstOf`), and it reports none just
for a permutation of the ids (`orderFault?_eq_none_iff`).

Main statement: a resource set has a document in an order just when the order is
a permutation of the ids; the document then lists them in this order, each with
its own resource, and a template has a document just when it has an order of
creation, in which it lists its resources (`Document.lists_resources_in_order`).
-/

namespace CloudTemplate

open Outcome

/-- The fault is the first one of an order.  Ids that are foreign, or that have
come before, are found from the front; only where there is no such id, the least
id that is missing counts. -/
inductive OrderFault.FirstOf (ids : List String) : List String → OrderFault → Prop
  | foreign
      {front back : List String} {id : String} (hnodup : front.Nodup)
      (hsubset : front ⊆ ids) (hid : id ∉ ids) :
      FirstOf ids (front ++ id :: back) (.foreign id)
  | repeated
      {front back : List String} {id : String} (hnodup : front.Nodup)
      (hsubset : front ⊆ ids) (hid : id ∈ front) :
      FirstOf ids (front ++ id :: back) (.repeated id)
  | missing
      {order : List String} {id : String} (hnodup : order.Nodup)
      (hsubset : order ⊆ ids) (hid : id ∈ ids) (hnot : id ∉ order)
      (hleast : ∀ other ∈ ids, other ∉ order → id ≤ other) :
      FirstOf ids order (.missing id)

section Faults

variable {ids seen order : List String} {fault : OrderFault}

/-- An order with a fault is no permutation of the ids. -/
theorem OrderFault.FirstOf.not_perm
    (h : fault.FirstOf ids order) (hids : ids.Nodup) : ¬ order.Perm ids := by
  intro hperm
  cases h with
  | foreign _ _ hid => exact hid (hperm.mem_iff.1 (by simp))
  | repeated _ _ hid =>
      have hnodup := List.nodup_middle.1 (hperm.nodup_iff.2 hids)
      exact (List.nodup_cons.1 hnodup).1 (List.mem_append_left _ hid)
  | missing _ _ hid hnot _ => exact hnot (hperm.mem_iff.2 hid)

/-- The ids before the place of the check are different ids of the set. -/
theorem firstOf_of_go
    (hnodup : seen.Nodup) (hsubset : seen ⊆ ids)
    (h : orderFault?.go ids seen order = some fault) :
    fault.FirstOf ids (seen.reverse ++ order) := by
  have hnodup' : seen.reverse.Nodup := List.nodup_reverse.2 hnodup
  have hsubset' : seen.reverse ⊆ ids := fun id hid => hsubset (List.mem_reverse.1 hid)
  induction order generalizing seen with
  | nil => cases h
  | cons head rest ih =>
      rw [orderFault?.go] at h
      split_ifs at h with hforeign hrepeated
      · cases h
        exact .foreign hnodup' hsubset' (by simpa using hforeign)
      · cases h
        exact .repeated hnodup' hsubset' (by simpa using hrepeated)
      · simp only [Bool.not_eq_true, Bool.not_eq_false', List.contains_eq_mem,
          decide_eq_true_eq] at hforeign hrepeated
        have hnodup₁ : (head :: seen).Nodup := List.nodup_cons.2 ⟨hrepeated, hnodup⟩
        have hsubset₁ : head :: seen ⊆ ids := List.cons_subset.2 ⟨hforeign, hsubset⟩
        have hfirst := ih hnodup₁ hsubset₁ h (List.nodup_reverse.2 hnodup₁)
          fun id hid => hsubset₁ (List.mem_reverse.1 hid)
        rwa [List.reverse_cons, List.append_assoc, List.singleton_append] at hfirst

theorem nodup_subset_of_go
    (hnodup : seen.Nodup) (hsubset : seen ⊆ ids)
    (h : orderFault?.go ids seen order = none) :
    (seen.reverse ++ order).Nodup ∧ seen.reverse ++ order ⊆ ids := by
  induction order generalizing seen with
  | nil => simpa using ⟨hnodup, hsubset⟩
  | cons head rest ih =>
      rw [orderFault?.go] at h
      split_ifs at h with hforeign hrepeated
      simp only [Bool.not_eq_true, Bool.not_eq_false', List.contains_eq_mem,
        decide_eq_true_eq] at hforeign hrepeated
      have hrest := ih (List.nodup_cons.2 ⟨hrepeated, hnodup⟩)
        (List.cons_subset.2 ⟨hforeign, hsubset⟩) h
      rwa [List.reverse_cons, List.append_assoc, List.singleton_append] at hrest

/-- What the check reports is the first fault of the order. -/
theorem firstOf_of_orderFault?
    (hids : ids.Pairwise (· < ·)) (h : orderFault? ids order = some fault) :
    fault.FirstOf ids order := by
  unfold orderFault? at h
  cases hgo : orderFault?.go ids [] order with
  | some found =>
      rw [hgo] at h
      cases h
      exact firstOf_of_go List.nodup_nil (List.nil_subset _) hgo
  | none =>
      rw [hgo] at h
      obtain ⟨hnodup, hsubset⟩ := nodup_subset_of_go List.nodup_nil (List.nil_subset _) hgo
      obtain ⟨id, hfind, rfl⟩ := Option.map_eq_some_iff.1 h
      have hnot := List.find?_some hfind
      refine .missing hnodup hsubset (List.mem_of_find?_eq_some hfind) (by simpa using hnot) ?_
      intro other hother hnot
      exact key_le_of_find?_eq_some (fun id => id) hids hfind other hother (by simpa using hnot)

/-- The check accepts the permutations of the ids. -/
theorem orderFault?_eq_none_iff
    (hids : ids.Pairwise (· < ·)) : orderFault? ids order = none ↔ order.Perm ids := by
  have hnodup : ids.Nodup := hids.imp fun hlt => ne_of_lt hlt
  constructor
  · intro h
    unfold orderFault? at h
    cases hgo : orderFault?.go ids [] order with
    | some found =>
        rw [hgo] at h
        cases h
    | none =>
        rw [hgo] at h
        obtain ⟨horder, hsubset⟩ := nodup_subset_of_go List.nodup_nil (List.nil_subset _) hgo
        refine (List.perm_ext_iff_of_nodup horder hnodup).2 fun id => ⟨fun hid => hsubset hid, ?_⟩
        intro hid
        have hfound := List.find?_eq_none.1 (Option.map_eq_none_iff.1 h) id hid
        simpa using hfound
  · intro hperm
    cases h : orderFault? ids order with
    | none => rfl
    | some fault => exact absurd hperm ((firstOf_of_orderFault? hids h).not_perm hnodup)

end Faults

namespace ResourceSet

variable {resources : ResourceSet} {order : List String}

/-- Every id of the order is written, and nothing else. -/
theorem names_toTree
    (h : order ⊆ resources.names) :
    Entries.names (order.filterMap fun id =>
      (resources.get? id).map fun r => (id, r.toTree)) = order := by
  induction order with
  | nil => rfl
  | cons id rest ih =>
      obtain ⟨hid, hrest⟩ := List.cons_subset.1 h
      obtain ⟨r, hr⟩ := NameTable.mem_names_iff_get?.1 hid
      rw [List.filterMap_cons, hr]
      exact congrArg (id :: ·) (ih hrest)

/-- Under an id of the order stands the resource with this id. -/
theorem lookup_toTree
    {id : String} {r : Resource} (hid : id ∈ order) (hr : resources.get? id = some r) :
    Entries.lookup id (order.filterMap fun id =>
      (resources.get? id).map fun r => (id, r.toTree)) = some r.toTree := by
  induction order with
  | nil => cases hid
  | cons head rest ih =>
      by_cases hhead : head = id
      · subst hhead
        rw [List.filterMap_cons, hr]
        simp [Entries.lookup]
      · have hrest := ih ((List.mem_cons.1 hid).resolve_left (Ne.symm hhead))
        rw [List.filterMap_cons]
        cases resources.get? head with
        | none => exact hrest
        | some other => simpa [Entries.lookup, hhead] using hrest

end ResourceSet

namespace Document

/-- The entries of the resources in a document, in their order. -/
def resourceEntries (d : Document) : Entries Tree :=
  match d.tree with
  | .map sections =>
      match Entries.lookup "Resources" sections with
      | some (.map resources) => resources
      | _ => []
  | _ => []

/-- The document lists the ids in the order, and has each resource under its own
id, as it is written. -/
def Lists (d : Document) (resources : ResourceSet) (order : List String) : Prop :=
  d.resourceIds = order ∧
    ∀ id r, resources.get? id = some r →
      Entries.lookup id d.resourceEntries = some r.toTree

variable {sections : Entries Tree} {resources : ResourceSet} {order : List String}

theorem resourceIds_eq (d : Document) : d.resourceIds = Entries.names d.resourceEntries := by
  obtain ⟨tree⟩ := d
  cases tree with
  | map sections =>
      simp only [resourceIds, resourceEntries]
      cases Entries.lookup "Resources" sections with
      | none => rfl
      | some tree => cases tree <;> rfl
  | _ => rfl

/-- A document with the section of the resources lists them. -/
theorem lists_of_section
    (hperm : order.Perm resources.names)
    (h : Entries.lookup "Resources" sections = some (ResourceSet.toTree resources order)) :
    (Document.mk (.map sections)).Lists resources order := by
  have hentries : (Document.mk (.map sections)).resourceEntries =
      order.filterMap fun id => (resources.get? id).map fun r => (id, r.toTree) := by
    simp only [resourceEntries, h, ResourceSet.toTree]
  refine ⟨?_, fun id r hr => ?_⟩
  · rw [resourceIds_eq, hentries]
    exact ResourceSet.names_toTree hperm.subset
  · rw [hentries]
    exact ResourceSet.lookup_toTree
      (hperm.mem_iff.2 (NameTable.mem_names_iff_get?.2 ⟨r, hr⟩)) hr

theorem lists_of_no_section
    (h : Entries.lookup "Resources" sections = none) :
    (Document.mk (.map sections)).Lists .empty [] := by
  have hentries : (Document.mk (.map sections)).resourceEntries = [] := by
    simp only [resourceEntries, h]
  refine ⟨?_, fun id r hr => ?_⟩
  · rw [resourceIds_eq, hentries]
    rfl
  · cases hr

/-- The document of a template lists its resources in the order.  Without
resources there is no section for them. -/
theorem lists_toTree
    {t : Template} (hperm : order.Perm t.resources.names) :
    (Document.mk (t.toTree order)).Lists t.resources order := by
  unfold Template.toTree
  by_cases hempty : t.resources.isEmpty
  · have hresources := (NameTable.isEmpty_iff t.resources).1 hempty
    rw [hresources] at hperm ⊢
    rw [hperm.eq_nil]
    refine lists_of_no_section ?_
    rw [lookup_presentEntries (by simp [Entries.names])]
    rfl
  · refine lists_of_section hperm ?_
    rw [lookup_presentEntries (by simp [Entries.names])]
    simp [Entries.lookup, hempty]

end Document

theorem Blueprint.graph_ne_invalidOrder (b : Blueprint) (fault : OrderFault) :
    b.graph ≠ .error (.invalidOrder fault) := by
  rcases b.graph_cases with h | ⟨id, path, h⟩ | h <;> simp [h]

theorem DependencyGraph.creationOrder_ne_invalidOrder (g : DependencyGraph) (fault : OrderFault) :
    g.creationOrder ≠ .error (.invalidOrder fault) := by
  by_cases h : g.Acyclic
  · rw [creationOrder_of_acyclic h]
    simp
  · rw [creationOrder_of_not_acyclic h]
    simp

/-- **A document lists resources in its order.**  A resource set has a document
in just those orders that list each id once and no other id.  The document lists
the ids in this order, and has each resource under its own id.  Any other order
is refused for the first id that is foreign or repeated, and without such an id
for the least one that is missing.  A template has a document when its graph and the
order of creation exist, and lists its resources in that order; otherwise it is
refused with the error of these, and never for an order. -/
theorem Document.lists_resources_in_order :
    (∀ (resources : ResourceSet) (order : List String),
      match resources.toDocument order with
      | .ok d => order.Perm resources.names ∧ d.Lists resources order
      | .error e =>
          ¬ order.Perm resources.names ∧
            ∃ fault, e = .invalidOrder fault ∧ fault.FirstOf resources.names order) ∧
    ∀ t : Template,
      match t.toDocument with
      | .ok d =>
          ∃ g order, (Blueprint.ofTemplate t).graph = .ok g ∧ g.creationOrder = .ok order ∧
            d.Lists t.resources order
      | .error e =>
          ((Blueprint.ofTemplate t).graph = .error e ∨
            ∃ g, (Blueprint.ofTemplate t).graph = .ok g ∧ g.creationOrder = .error e) ∧
          ∀ fault, e ≠ .invalidOrder fault := by
  constructor
  · intro resources order
    unfold ResourceSet.toDocument ResourceSet.toDocumentTree
    cases hfault : orderFault? resources.names order with
    | none =>
        have hperm := (orderFault?_eq_none_iff resources.pairwise_names).1 hfault
        exact ⟨hperm, lists_of_section hperm rfl⟩
    | some fault =>
        have hfirst := firstOf_of_orderFault? resources.pairwise_names hfault
        exact ⟨hfirst.not_perm resources.nodup_names, fault, rfl, hfirst⟩
  · intro t
    unfold Template.toDocument
    cases hgraph : (Blueprint.ofTemplate t).graph with
    | error e =>
        refine ⟨Or.inl rfl, fun fault heq => ?_⟩
        exact Blueprint.graph_ne_invalidOrder _ fault (heq ▸ hgraph)
    | ok g =>
        rw [ok_bind]
        cases horder : g.creationOrder with
        | error e =>
            refine ⟨Or.inr ⟨g, rfl, horder⟩, fun fault heq => ?_⟩
            exact g.creationOrder_ne_invalidOrder fault (heq ▸ horder)
        | ok order =>
            have hperm := Blueprint.perm_of_creationOrder hgraph horder
            exact ⟨g, order, rfl, horder, lists_toTree hperm⟩

end CloudTemplate
