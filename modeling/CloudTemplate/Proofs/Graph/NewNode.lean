import CloudTemplate.Proofs.Graph.AdjacencyMap

/-!
# A node that nothing depends on

A graph is extended by a node with dependencies among the nodes that are there;
nothing depends on the new node.  Until it is released it is one more name that
may be ready, and it makes no other name ready.

So the releases of the two graphs run side by side: wherever the extended graph
stands, the given one stands at the same names without the new one, and the same
names are ready but for the new one (`Adjacency.ready_insert_iff`).  A turn of
the new node is a turn for one of the two only, any other turn takes the same
name in both (`Adjacency.LeastFirst.filter_insert`).

Main statement: without the new node, the orders of creation and of deletion are
those of the given graph (`creationOrder_extended`).
-/

namespace CloudTemplate
namespace Adjacency

variable {a : Adjacency} {deps : NameSet} {x id u v : String}
variable {done order extended : List String}

section Rows

theorem row_insert (a : Adjacency) (x : String) (deps : NameSet) (id : String) :
    row (NameTable.insert a x deps) id = if x = id then deps.names else a.row id := by
  rw [row, NameTable.get?_insert]
  split <;> rfl

theorem row_insert_of_ne (hne : id ≠ x) : row (NameTable.insert a x deps) id = a.row id := by
  rw [row_insert, if_neg hne.symm]

variable (hx : x ∉ NameTable.names a) (hgrounded : a.Grounded)
variable (hdeps : ∀ dep ∈ deps.names, dep ∈ NameTable.names a)

include hx hgrounded in
theorem not_mem_row : x ∉ a.row id :=
  fun hmem => hx (hgrounded id x hmem)

include hgrounded hdeps

theorem mem_names_of_mem_row_insert (h : v ∈ row (NameTable.insert a x deps) u) :
    v ∈ NameTable.names a := by
  rw [row_insert] at h
  split at h
  · exact hdeps v h
  · exact hgrounded u v h

theorem grounded_insert : Grounded (NameTable.insert a x deps) := by
  intro u v hrow
  exact NameTable.mem_names_insert.2
    (Or.inr (mem_names_of_mem_row_insert hgrounded hdeps hrow))

include hx

theorem loopless_insert (hloop : a.Loopless) : Loopless (NameTable.insert a x deps) := by
  intro id hrow
  by_cases heq : id = x
  · subst heq
    exact hx (mem_names_of_mem_row_insert hgrounded hdeps hrow)
  · rw [row_insert_of_ne heq] at hrow
    exact hloop id hrow

/-- No path leads to the new name, so a path from another name does not pass it. -/
theorem transGen_of_insert
    (h : Relation.TransGen (fun u v => v ∈ row (NameTable.insert a x deps) u) u v) (hu : u ≠ x) :
    Relation.TransGen (fun u v => v ∈ a.row u) u v := by
  induction h with
  | single hrow =>
      rw [row_insert_of_ne hu] at hrow
      exact .single hrow
  | @tail mid _ hpath hrow ih =>
      obtain ⟨_, -, hlast⟩ := Relation.TransGen.tail'_iff.1 hpath
      have hmem := mem_names_of_mem_row_insert hgrounded hdeps hlast
      have hne : mid ≠ x := fun heq => hx (heq ▸ hmem)
      rw [row_insert_of_ne hne] at hrow
      exact ih.tail hrow

theorem acyclic_insert (hacyclic : a.Acyclic) : Acyclic (NameTable.insert a x deps) := by
  intro id hcycle
  obtain ⟨_, -, hlast⟩ := Relation.TransGen.tail'_iff.1 hcycle
  have hmem := mem_names_of_mem_row_insert hgrounded hdeps hlast
  have hne : id ≠ x := fun heq => hx (heq ▸ hmem)
  exact hacyclic id (transGen_of_insert hx hgrounded hdeps hcycle hne)

end Rows

section Turns

/-- The names without the new one. -/
def without (x : String) (names : List String) : List String :=
  names.filter (· ≠ x)

theorem mem_without_iff : id ∈ without x order ↔ id ∈ order ∧ id ≠ x := by
  simp [without]

theorem without_cons_self (x : String) (order : List String) :
    without x (x :: order) = without x order :=
  List.filter_cons_of_neg (by simp)

theorem without_cons_of_ne (hne : id ≠ x) : without x (id :: order) = id :: without x order :=
  List.filter_cons_of_pos (by simpa using hne)

variable (hx : x ∉ NameTable.names a) (hgrounded : a.Grounded)

include hx hgrounded

/-- Whether another name is ready does not depend on the new one. -/
theorem ready_insert_iff (hne : id ≠ x) :
    Ready (NameTable.insert a x deps) done id ↔ a.Ready (without x done) id := by
  have hmem : id ∈ NameTable.names (NameTable.insert a x deps) ↔ id ∈ NameTable.names a := by
    rw [NameTable.mem_names_insert, or_iff_right hne]
  have hdone : ∀ dep ∈ a.row id, dep ∈ without x done ↔ dep ∈ done := fun dep hdep => by
    rw [mem_without_iff, and_iff_left]
    exact fun heq => not_mem_row hx hgrounded (heq ▸ hdep)
  constructor
  · rintro ⟨hid, hfresh, hreleased⟩
    rw [row_insert_of_ne hne] at hreleased
    exact ⟨hmem.1 hid, fun hold => hfresh (mem_without_iff.1 hold).1,
      fun dep hdep => (hdone dep hdep).2 (hreleased dep hdep)⟩
  · rintro ⟨hid, hfresh, hreleased⟩
    refine ⟨hmem.2 hid, fun hold => hfresh (mem_without_iff.2 ⟨hold, hne⟩), ?_⟩
    rw [row_insert_of_ne hne]
    exact fun dep hdep => (hdone dep hdep).1 (hreleased dep hdep)

/-- The two releases take the same turns but for that of the new name. -/
theorem LeastFirst.filter_insert
    (hextended : LeastFirst (NameTable.insert a x deps) done extended)
    (h : a.LeastFirst (without x done) order) : without x extended = order := by
  have hne : ∀ {done id}, a.Ready done id → id ≠ x := fun hready heq => hx (heq ▸ hready.mem)
  induction extended generalizing done order with
  | nil =>
      cases order with
      | nil => rfl
      | cons id rest =>
          exact absurd ((ready_insert_iff hx hgrounded (hne h.1)).2 h.1) (hextended id)
  | cons head tail ih =>
      obtain ⟨hready, hleast, hrest⟩ := hextended
      by_cases hnew : head = x
      · subst hnew
        rw [without_cons_self]
        exact ih hrest (by rwa [without_cons_self])
      · have hready' := (ready_insert_iff hx hgrounded hnew).1 hready
        cases order with
        | nil => exact absurd hready' (h head)
        | cons id rest =>
            have hle := hleast id ((ready_insert_iff hx hgrounded (hne h.1)).2 h.1)
            have heq : head = id := le_antisymm hle (h.2.1 head hready')
            subst heq
            rw [without_cons_of_ne hnew, ih hrest]
            rw [without_cons_of_ne hnew]
            exact h.2.2

end Turns

end Adjacency

namespace DependencyGraph

open Adjacency

variable {g extended : DependencyGraph} {x : String} {deps : NameSet}

/-- **A new node that nothing depends on does not change the order of the
others.**  The graph without cycles may be extended by it, and in every graph
with the extended map the orders of creation and of deletion, without the new
node, are those of the given graph. -/
theorem creationOrder_extended
    (hacyclic : g.Acyclic) (hx : x ∉ g.ids) (hdeps : ∀ dep ∈ deps.names, dep ∈ g.ids) :
    (∃ extended, ofMap (NameTable.insert g.toMap x deps) = .ok extended) ∧
      ∀ extended : DependencyGraph, extended.toMap = NameTable.insert g.toMap x deps →
        ∃ order order' : List String,
          g.creationOrder = .ok order ∧ g.deletionOrder = .ok order.reverse ∧
          extended.creationOrder = .ok order' ∧ extended.deletionOrder = .ok order'.reverse ∧
          x ∈ order' ∧ order'.filter (· ≠ x) = order ∧
          order'.reverse.filter (· ≠ x) = order.reverse := by
  rw [← names_toMap] at hx hdeps
  have hgrounded := g.grounded_toMap
  have hacyclic' := (acyclic_toMap g).2 hacyclic
  have hextended := acyclic_insert hx hgrounded hdeps hacyclic'
  refine ⟨⟨_, ofMap_eq_ok_iff.2 ⟨loopless_insert hx hgrounded hdeps g.loopless_toMap,
    grounded_insert hgrounded hdeps, rfl⟩⟩, fun extended hmap => ?_⟩
  have hcreation : extended.creationOrder =
      .ok (releaseOrder (NameTable.insert g.toMap x deps)) := by
    rw [← hmap] at hextended ⊢
    exact creationOrder_of_acyclic ((acyclic_toMap extended).1 hextended)
  have hfilter := (releaseOrder_leastFirst (NameTable.insert g.toMap x deps)).filter_insert
    hx hgrounded (releaseOrder_leastFirst g.toMap)
  have hmem : x ∈ releaseOrder (NameTable.insert g.toMap x deps) :=
    (releaseOrder_leastFirst _).mem_of_acyclic hextended (grounded_insert hgrounded hdeps)
      (NameTable.mem_names_insert.2 (Or.inl rfl))
  refine ⟨_, _, creationOrder_of_acyclic hacyclic, ?_, hcreation, ?_, hmem, hfilter, ?_⟩
  · rw [deletionOrder, creationOrder_of_acyclic hacyclic]
    rfl
  · rw [deletionOrder, hcreation]
    rfl
  · rw [List.filter_reverse]
    exact congrArg List.reverse hfilter

/-- Two ways from one node to another. -/
def diamond : DependencyGraph :=
  .ofRows
    (.ofList
      [("A", .ofList [("B", .reference), ("C", .reference)]), ("B", .ofList [("D", .reference)]),
        ("C", .ofList [("D", .dependsOn)]), ("D", .empty)])
    .empty []

/-- The diamond with one more node, whose turn comes between those of others. -/
def widened : DependencyGraph :=
  .ofRows (diamond.rows.insert "AA" (.ofList [("B", .recovered)])) .empty []

theorem creationOrder_widened :
    diamond.Acyclic ∧ "AA" ∉ diamond.ids ∧
      (∀ dep ∈ NameTable.names (NameSet.ofList ["B"]), dep ∈ diamond.ids) ∧
      widened.creationOrder = .ok ["D", "B", "AA", "C", "A"] ∧
      diamond.creationOrder = .ok ["D", "B", "C", "A"] := by
  have hacyclic : diamond.Acyclic := cycles_eq_nil_iff.1 (by decide +kernel)
  have hwidened : widened.Acyclic := cycles_eq_nil_iff.1 (by decide +kernel)
  have hx : "AA" ∉ diamond.ids := by decide +kernel
  have hdeps : ∀ dep ∈ NameTable.names (NameSet.ofList ["B"]), dep ∈ diamond.ids := by
    decide +kernel
  have hmap : widened.toMap = NameTable.insert diamond.toMap "AA" (.ofList ["B"]) := by
    decide +kernel
  have hreleased : releaseOrder widened.toMap = ["D", "B", "AA", "C", "A"] := by decide +kernel
  obtain ⟨order, order', horder, -, horder', -, -, hfilter, -⟩ :=
    (creationOrder_extended hacyclic hx hdeps).2 widened hmap
  have hextended := creationOrder_of_acyclic hwidened
  rw [hreleased] at hextended
  cases hextended.symm.trans horder'
  refine ⟨hacyclic, hx, hdeps, hextended, ?_⟩
  rw [horder, ← hfilter]
  rfl

end DependencyGraph
end CloudTemplate
