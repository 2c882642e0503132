import CloudTemplate.Proofs.Template.Value

/-!
# Reading back what was written of a record

A record is written as a map with an entry for each field that is present, and
read by a loop over the sorted entries.  Each field is set by its own entry, so
the loop can be followed field by field (`foldlM_presentEntries_cons`).  A table
of records is read back when each of its records is (`Reading.table_of_written`).
-/

namespace CloudTemplate

open Outcome

section Present

variable {entries : List (String × Option Tree)} {name : String} {tree : Tree}

theorem mem_presentEntries :
    (name, tree) ∈ presentEntries entries ↔ (name, some tree) ∈ entries := by
  unfold presentEntries
  rw [List.mem_filterMap]
  constructor
  · rintro ⟨⟨n, found⟩, hmem, heq⟩
    obtain ⟨tree', rfl, heq⟩ := Option.map_eq_some_iff.1 heq
    cases heq
    exact hmem
  · intro h
    exact ⟨_, h, rfl⟩

theorem presentEntries_cons_none (name : String) (entries : List (String × Option Tree)) :
    presentEntries ((name, none) :: entries) = presentEntries entries := rfl

theorem presentEntries_cons_some
    (name : String) (tree : Tree) (entries : List (String × Option Tree)) :
    presentEntries ((name, some tree) :: entries) =
      (name, tree) :: presentEntries entries := rfl

theorem presentEntries_cons
    (name : String) (found : Option Tree) (entries : List (String × Option Tree)) :
    presentEntries ((name, found) :: entries) =
      (found.map fun tree => (name, tree)).toList ++ presentEntries entries := by
  cases found <;> rfl

theorem names_presentEntries_sublist (entries : List (String × Option Tree)) :
    (Entries.names (presentEntries entries)).Sublist (Entries.names entries) := by
  induction entries with
  | nil => exact List.Sublist.slnil
  | cons head rest ih =>
      obtain ⟨name, found⟩ := head
      cases found with
      | none => exact ih.cons name
      | some tree => exact ih.cons_cons name

theorem lookup_presentEntries
    (hnodup : (Entries.names entries).Nodup) :
    Entries.lookup name (presentEntries entries) = (Entries.lookup name entries).join := by
  induction entries with
  | nil => rfl
  | cons head rest ih =>
      obtain ⟨n, found⟩ := head
      obtain ⟨hnot, hrest⟩ := List.nodup_cons.1 hnodup
      by_cases hn : n = name
      · subst hn
        cases found with
        | none =>
            have hnone : Entries.lookup n (presentEntries rest) = none :=
              Entries.lookup_eq_none_iff.2 fun hmem =>
                hnot ((names_presentEntries_sublist rest).subset hmem)
            simp [presentEntries_cons_none, hnone, Entries.lookup]
        | some tree => simp [presentEntries_cons_some, Entries.lookup]
      · cases found with
        | none => simpa [presentEntries_cons_none, Entries.lookup, hn] using ih hrest
        | some tree => simpa [presentEntries_cons_some, Entries.lookup, hn] using ih hrest

/-- The tree of a record, sorted: its fields sorted by name, each with a sorted
tree. -/
theorem sort_map_presentEntries
    (hnodup : (Entries.names entries).Nodup) :
    (Tree.map (presentEntries entries)).sort =
      .map (presentEntries (Entries.sort (Entries.mapValues (Option.map Tree.sort) entries))) := by
  have hvalues : Entries.mapValues Tree.sort (presentEntries entries) =
      presentEntries (Entries.mapValues (Option.map Tree.sort) entries) := by
    clear hnodup
    induction entries with
    | nil => rfl
    | cons head rest ih =>
        obtain ⟨n, found⟩ := head
        cases found with
        | none => exact ih
        | some tree => exact congrArg ((n, tree.sort) :: ·) ih
  have hnodup' : (Entries.names
      (Entries.mapValues (Option.map Tree.sort) entries)).Nodup := by
    rw [Entries.names_mapValues]
    exact hnodup
  rw [Tree.sort, Tree.sortEntries_eq_mapValues, hvalues]
  refine congrArg Tree.map (Entries.sort_eq_of_mem_iff ?_ ?_ fun entry => ?_)
  · exact hnodup'.sublist (names_presentEntries_sublist _)
  · have hpairwise := (Entries.Ascending.sort
      (Entries.mapValues (Option.map Tree.sort) entries)).names
    exact List.pairwise_map.1 (hpairwise.sublist (names_presentEntries_sublist _))
  · rw [mem_presentEntries, mem_presentEntries, Entries.mem_sort_iff hnodup']

theorem map_sort_eq
    {found : Option Tree} (h : ∀ tree ∈ found, tree.Sorted) :
    found.map Tree.sort = found := by
  cases found with
  | none => rfl
  | some tree => rw [Option.map_some, (h tree rfl).sort_eq]

section Loop

universe u v
variable {ε : Type u} {σ : Type} {α : Type v}
variable {step : σ → String × Tree → Except ε σ} {s : σ}

/-- A field is set by its entry; without the entry it has its value already. -/
theorem foldlM_presentEntries_cons
    (put : σ → σ) {found : Option Tree} (hnone : found = none → put s = s)
    (hsome : ∀ tree, found = some tree → step s (name, tree) = .ok (put s)) :
    (presentEntries ((name, found) :: entries)).foldlM step s =
      (presentEntries entries).foldlM step (put s) := by
  cases found with
  | none => rw [presentEntries_cons_none, hnone rfl]
  | some tree =>
      rw [presentEntries_cons_some, List.foldlM_cons, hsome tree rfl]
      rfl

/-- An optional field is set by its entry. -/
theorem foldlM_presentEntries_map
    (set : σ → Option α → σ) {write : α → Tree} {found : Option α}
    (hnone : set s none = s)
    (hsome : ∀ a, step s (name, write a) = .ok (set s (some a))) :
    (presentEntries ((name, found.map write) :: entries)).foldlM step s =
      (presentEntries entries).foldlM step (set s found) := by
  refine foldlM_presentEntries_cons (fun s => set s found) (fun h => ?_) fun tree h => ?_
  · rw [Option.map_eq_none_iff.1 h]
    exact hnone
  · obtain ⟨a, rfl, rfl⟩ := Option.map_eq_some_iff.1 h
    exact hsome a

/-- A field that holds a tree is set by its entry. -/
theorem foldlM_presentEntries_tree
    (set : σ → Option Tree → σ) {found : Option Tree}
    (hnone : set s none = s)
    (hsome : ∀ tree, found = some tree → step s (name, tree) = .ok (set s (some tree))) :
    (presentEntries ((name, found) :: entries)).foldlM step s =
      (presentEntries entries).foldlM step (set s found) := by
  refine foldlM_presentEntries_cons (fun s => set s found) (fun h => ?_) fun tree h => ?_
  · rw [h]
    exact hnone
  · rw [h]
    exact hsome tree h

/-- A table is set by its entry, or is empty. -/
theorem foldlM_presentEntries_table
    {γ : Type} (set : σ → NameTable γ → σ) {write : γ → Tree} {table : NameTable γ}
    (hnone : set s .empty = s)
    (hsome : step s (name, .map (table.map write).entries) = .ok (set s table)) :
    (presentEntries ((name, table.toTree? write) :: entries)).foldlM step s =
      (presentEntries entries).foldlM step (set s table) := by
  unfold NameTable.toTree?
  refine foldlM_presentEntries_cons (fun s => set s table) (fun h => ?_) fun tree h => ?_
  · split_ifs at h with hempty
    rw [(NameTable.isEmpty_iff table).1 hempty]
    exact hnone
  · split_ifs at h
    cases h
    exact hsome

/-- A list is set by its entry, or is empty. -/
theorem foldlM_presentEntries_list
    (set : σ → List α → σ) {tree : Tree} {list : List α}
    (hnone : set s [] = s) (hsome : step s (name, tree) = .ok (set s list)) :
    (presentEntries ((name, if list.isEmpty then none else some tree) :: entries)).foldlM
        step s =
      (presentEntries entries).foldlM step (set s list) := by
  refine foldlM_presentEntries_cons (fun s => set s list) (fun h => ?_) fun tree h => ?_
  · split_ifs at h with hempty
    rw [List.isEmpty_iff.1 hempty]
    exact hnone
  · split_ifs at h
    cases h
    exact hsome

end Loop

end Present

section Tables

variable {α : Type} {table : NameTable α}

/-- The tree of a table has ascending names already. -/
theorem sort_map_entries (write : α → Tree) (table : NameTable α) :
    (Tree.map (table.map write).entries).sort =
      .map (table.map fun item => (write item).sort).entries := by
  have hvalues : Entries.mapValues Tree.sort (table.map write).entries =
      (table.map fun item => (write item).sort).entries := by
    simp [NameTable.map, Entries.mapValues]
  rw [Tree.sort, Tree.sortEntries_eq_mapValues, hvalues,
    (NameTable.ascending _).sort_eq]

namespace Reading

/-- The entries of a sorted mapping are sorted. -/
theorem sorted_of_mapping
    {path : String} {tree : Tree} {trees : Entries Tree} (hsorted : tree.Sorted)
    (h : mapping path tree = .ok trees) : ∀ entry ∈ trees, entry.2.Sorted := by
  cases tree with
  | map given =>
      cases h
      exact (Tree.sorted_map_iff.1 hsorted).2
  | null =>
      cases h
      simp
  | _ => cases h

/-- Every value of a table was read from an entry with its name. -/
theorem exists_of_table
    {read : String → Tree → Except Error α} {trees : Entries Tree}
    (h : Reading.table read trees = .ok table) :
    ∀ name item, table.get? name = some item →
      ∃ tree, (name, tree) ∈ trees ∧ read name tree = .ok item := by
  refine foldlM_invariant
    (fun found : NameTable α => ∀ name item, found.get? name = some item →
      ∃ tree, (name, tree) ∈ trees ∧ read name tree = .ok item) ?_ ?_ h
  · intro found next entry hentry hfound hstep name item hitem
    obtain ⟨new, hnew, heq⟩ := bind_eq_ok_iff.1 hstep
    cases heq
    rw [NameTable.get?_insert] at hitem
    split_ifs at hitem with hname
    · cases hitem
      exact ⟨entry.2, hname ▸ hentry, hname ▸ hnew⟩
    · exact hfound name item hitem
  · intro name item hitem
    simp at hitem

/-- A table is read back when each of its values is. -/
theorem table_of_written
    {read : String → Tree → Except Error α} {write : α → Tree}
    (h : ∀ name item, table.get? name = some item → read name (write item) = .ok item) :
    Reading.table read (table.map write).entries = .ok table := by
  have hloop : ∀ (items : Entries α) (found : NameTable α),
      (∀ entry ∈ items, read entry.1 (write entry.2) = .ok entry.2) →
      (Entries.mapValues write items).foldlM (fun found entry => do
        let item ← read entry.1 entry.2
        return found.insert entry.1 item) found =
      .ok (items.foldl (fun found entry => found.insert entry.1 entry.2) found) := by
    intro items
    induction items with
    | nil => intro found _; rfl
    | cons head rest ih =>
        intro found hitems
        show List.foldlM _ found ((head.1, write head.2) :: Entries.mapValues write rest) = _
        rw [List.foldlM_cons, hitems head (List.mem_cons_self ..)]
        exact ih _ fun entry hentry => hitems entry (List.mem_cons_of_mem _ hentry)
  have hall : ∀ entry ∈ table.entries, read entry.1 (write entry.2) = .ok entry.2 :=
    fun entry hentry => h entry.1 entry.2 (NameTable.get?_eq_some_iff.2 hentry)
  refine (hloop table.entries .empty hall).trans (congrArg Except.ok ?_)
  exact (NameTable.foldl_insert table.entries).trans table.ofList_entries

end Reading

end Tables

end CloudTemplate
