import CloudTemplate.Tree
import CloudTemplate.Proofs.NameTable

/-!
# Sorted document trees

A tree is sorted when the names of each of its maps ascend (`Tree.Sorted`).
The two document formats do not keep the order in which a map was written:
what is read back of a tree `t` is the sorted tree `t.sort`.

Proofs about all trees go by `Tree.induction`, which has one case for lists
and one for maps, each with the hypothesis for all children.
-/

namespace CloudTemplate

namespace Tree

/-- Induction on trees, with the hypothesis for all children. -/
@[elab_as_elim]
theorem induction
    {motive : Tree → Prop}
    (null : motive .null)
    (bool : ∀ value, motive (.bool value))
    (number : ∀ value, motive (.number value))
    (string : ∀ value, motive (.string value))
    (list : ∀ items, (∀ item ∈ items, motive item) → motive (.list items))
    (map : ∀ entries, (∀ entry ∈ entries, motive entry.2) → motive (.map entries)) :
    ∀ tree, motive tree := by
  refine @Tree.rec motive (fun items => ∀ item ∈ items, motive item)
    (fun entries => ∀ entry ∈ entries, motive entry.2) (fun entry => motive entry.2)
    null bool number string list map ?_ ?_ ?_ ?_ ?_
  · intro item hitem
    cases hitem
  · intro head rest hhead hrest item hitem
    rcases List.mem_cons.1 hitem with heq | hitem
    · exact heq ▸ hhead
    · exact hrest item hitem
  · intro entry hentry
    cases hentry
  · intro head rest hhead hrest entry hentry
    rcases List.mem_cons.1 hentry with heq | hentry
    · exact heq ▸ hhead
    · exact hrest entry hentry
  · intro name tree htree
    exact htree

mutual

/-- The names of every map ascend. -/
def Sorted : Tree → Prop
  | .null | .bool _ | .number _ | .string _ => True
  | .list items => AllSorted items
  | .map entries => Entries.Ascending entries ∧ AllEntriesSorted entries

/-- Every item of a list is sorted. -/
def AllSorted : List Tree → Prop
  | [] => True
  | item :: rest => Sorted item ∧ AllSorted rest

/-- The value of every entry is sorted. -/
def AllEntriesSorted : List (String × Tree) → Prop
  | [] => True
  | (_, item) :: rest => Sorted item ∧ AllEntriesSorted rest

end

mutual

/-- The tree with the entries of all its maps sorted. -/
def sort : Tree → Tree
  | .null => .null
  | .bool value => .bool value
  | .number value => .number value
  | .string value => .string value
  | .list items => .list (sortItems items)
  | .map entries => .map (Entries.sort (sortEntries entries))

/-- The sorted items of a list. -/
def sortItems : List Tree → List Tree
  | [] => []
  | item :: rest => sort item :: sortItems rest

/-- The entries with sorted values, in their order. -/
def sortEntries : List (String × Tree) → List (String × Tree)
  | [] => []
  | (name, item) :: rest => (name, sort item) :: sortEntries rest

end

theorem allSorted_iff
    {items : List Tree} : AllSorted items ↔ ∀ item ∈ items, item.Sorted := by
  induction items with
  | nil => simp [AllSorted]
  | cons head rest ih => simp [AllSorted, ih]

theorem allEntriesSorted_iff
    {entries : Entries Tree} :
    AllEntriesSorted entries ↔ ∀ entry ∈ entries, entry.2.Sorted := by
  induction entries with
  | nil => simp [AllEntriesSorted]
  | cons head rest ih => simp [AllEntriesSorted, ih]

@[simp] theorem sorted_list_iff
    {items : List Tree} : (Tree.list items).Sorted ↔ ∀ item ∈ items, item.Sorted := by
  rw [Sorted, allSorted_iff]

@[simp] theorem sorted_map_iff
    {entries : Entries Tree} :
    (Tree.map entries).Sorted ↔
      entries.Ascending ∧ ∀ entry ∈ entries, entry.2.Sorted := by
  rw [Sorted, allEntriesSorted_iff]

theorem sortItems_eq_map (items : List Tree) : sortItems items = items.map sort := by
  induction items with
  | nil => rfl
  | cons head rest ih => simp [sortItems, ih]

theorem sortEntries_eq_mapValues (entries : Entries Tree) :
    sortEntries entries = Entries.mapValues sort entries := by
  induction entries with
  | nil => rfl
  | cons head rest ih => simp [sortEntries, ih, Entries.mapValues]

/-- A sorted tree stays as it is. -/
theorem Sorted.sort_eq {tree : Tree} (h : tree.Sorted) : tree.sort = tree := by
  induction tree using Tree.induction with
  | null => rfl
  | bool value => rfl
  | number value => rfl
  | string value => rfl
  | list items ih =>
      rw [sorted_list_iff] at h
      rw [sort, sortItems_eq_map, List.map_congr_left fun item hitem =>
        ih item hitem (h item hitem), List.map_id']
  | map entries ih =>
      obtain ⟨hascending, hvalues⟩ := sorted_map_iff.1 h
      have hsame : Entries.mapValues sort entries = entries := by
        refine (List.map_congr_left fun entry hentry => ?_).trans (List.map_id' _)
        exact Prod.ext rfl (ih entry hentry (hvalues entry hentry))
      rw [sort, sortEntries_eq_mapValues, hsame, hascending.sort_eq]

theorem sorted_sort (tree : Tree) : tree.sort.Sorted := by
  induction tree using Tree.induction with
  | null => trivial
  | bool value => trivial
  | number value => trivial
  | string value => trivial
  | list items ih =>
      rw [sort, sortItems_eq_map, sorted_list_iff]
      intro item hitem
      obtain ⟨given, hgiven, rfl⟩ := List.mem_map.1 hitem
      exact ih given hgiven
  | map entries ih =>
      rw [sort, sortEntries_eq_mapValues, sorted_map_iff]
      refine ⟨Entries.Ascending.sort _, fun entry hentry => ?_⟩
      obtain ⟨given, hgiven, rfl⟩ := List.mem_map.1 (Entries.mem_of_mem_sort hentry)
      exact ih given hgiven

end Tree
end CloudTemplate
