import Mathlib.Data.List.Sort
import Mathlib.Data.String.Basic
import CloudTemplate.NameTable

/-!
# Contents of name tables

A name table is determined by what is found under each name.  This module
says, for every operation on tables, which names the result has and what is
found under them, so that later modules never look at entry lists.

The main tools are `Entries.Ascending.ext` (two tables with the same lookups
are equal), `Entries.lookup_sort` (of equal names the last entry wins) and
`NameTable.size_insert`.
-/

namespace CloudTemplate

universe u v

namespace Entries

variable {α : Type u} {β : Type v}

theorem mem_names_iff
    {name : String} {entries : Entries α} :
    name ∈ names entries ↔ ∃ value, (name, value) ∈ entries := by
  simp [names]

theorem mem_names_cons
    {name : String} {entry : String × α} {entries : Entries α} :
    name ∈ names (entry :: entries) ↔
      name = entry.1 ∨ name ∈ names entries := by
  simp [names]

theorem lookup_eq_none_iff
    {name : String} {entries : Entries α} :
    lookup name entries = none ↔ name ∉ names entries := by
  induction entries with
  | nil => simp [lookup, names]
  | cons head rest ih =>
      obtain ⟨n, value⟩ := head
      by_cases hn : n = name
      · simp [lookup, names, hn]
      · have hn' : ¬ name = n := fun h => hn h.symm
        simpa [lookup, names, hn, hn'] using ih

theorem mem_of_lookup
    {name : String} {value : α} {entries : Entries α}
    (hlookup : lookup name entries = some value) :
    (name, value) ∈ entries := by
  induction entries with
  | nil => simp [lookup] at hlookup
  | cons head rest ih =>
      obtain ⟨n, old⟩ := head
      by_cases hn : n = name
      · subst hn
        simp only [lookup, if_true, Option.some.injEq] at hlookup
        simp [hlookup]
      · simp only [lookup, hn, if_false] at hlookup
        exact List.mem_cons_of_mem _ (ih hlookup)

theorem lookup_append
    (name : String) (first second : Entries α) :
    lookup name (first ++ second) =
      (lookup name first).or (lookup name second) := by
  induction first with
  | nil => simp [lookup]
  | cons head rest ih =>
      obtain ⟨n, value⟩ := head
      by_cases hn : n = name <;> simp [lookup, hn, ih]

theorem lookup_mapValues
    (f : α → β) (name : String) (entries : Entries α) :
    lookup name (mapValues f entries) = (lookup name entries).map f := by
  induction entries with
  | nil => rfl
  | cons head rest ih =>
      obtain ⟨n, value⟩ := head
      have ih' : lookup name (List.map (fun e => (e.1, f e.2)) rest) =
          (lookup name rest).map f := ih
      by_cases hn : n = name <;> simp [lookup, mapValues, hn, ih']

theorem lookup_mapEntries
    (f : String → α → β) (name : String) (entries : Entries α) :
    lookup name (mapEntries f entries) =
      (lookup name entries).map (f name) := by
  induction entries with
  | nil => rfl
  | cons head rest ih =>
      obtain ⟨n, value⟩ := head
      have ih' : lookup name (List.map (fun e => (e.1, f e.1 e.2)) rest) =
          (lookup name rest).map (f name) := ih
      by_cases hn : n = name
      · simp [lookup, mapEntries, hn]
      · simp [lookup, mapEntries, hn, ih']

@[simp] theorem names_mapValues
    (f : α → β) (entries : Entries α) :
    names (mapValues f entries) = names entries := by
  simp [mapValues, names, Function.comp_def]

theorem mem_names_insert
    {name key : String} {value : α} {entries : Entries α} :
    key ∈ names (insert name value entries) ↔
      key = name ∨ key ∈ names entries := by
  have hiff : ∀ n, ∀ es : Entries α, n ∈ names es ↔ lookup n es ≠ none := by
    intro n es
    rw [Ne, lookup_eq_none_iff, not_not]
  rw [hiff, hiff, lookup_insert]
  by_cases h : name = key
  · simp [h]
  · have h' : ¬ key = name := fun e => h e.symm
    simp [h, h']

namespace Ascending

theorem names
    {entries : Entries α} (h : Ascending entries) :
    (Entries.names entries).Pairwise (· < ·) :=
  List.pairwise_map.2 h

theorem nodup_names
    {entries : Entries α} (h : Ascending entries) :
    (Entries.names entries).Nodup :=
  h.names.imp fun hlt => ne_of_lt hlt

theorem lookup_of_mem
    {name : String} {value : α} {entries : Entries α}
    (h : Ascending entries) (hmem : (name, value) ∈ entries) :
    lookup name entries = some value := by
  induction entries with
  | nil => simp at hmem
  | cons head rest ih =>
      obtain ⟨n, old⟩ := head
      obtain ⟨habove, hrest⟩ := List.pairwise_cons.1 h
      rcases List.mem_cons.1 hmem with heq | hmem
      · cases heq
        simp [lookup]
      · have hn : n ≠ name := ne_of_lt (habove _ hmem)
        simp only [lookup, hn, if_false]
        exact ih hrest hmem

theorem lookup_eq_some_iff
    {name : String} {value : α} {entries : Entries α}
    (h : Ascending entries) :
    lookup name entries = some value ↔ (name, value) ∈ entries :=
  ⟨mem_of_lookup, h.lookup_of_mem⟩

/-- Tables with the same lookups are equal. -/
theorem ext
    {first second : Entries α}
    (hfirst : Ascending first) (hsecond : Ascending second)
    (hlookup : ∀ name, lookup name first = lookup name second) :
    first = second := by
  induction first generalizing second with
  | nil =>
      cases second with
      | nil => rfl
      | cons head rest =>
          have h := hlookup head.1
          simp [lookup] at h
  | cons head rest ih =>
      obtain ⟨habove, hrest⟩ := List.pairwise_cons.1 hfirst
      cases second with
      | nil =>
          have h := hlookup head.1
          simp [lookup] at h
      | cons head' rest' =>
          obtain ⟨habove', hrest'⟩ := List.pairwise_cons.1 hsecond
          have hmem : head ∈ head' :: rest' :=
            mem_of_lookup (by rw [← hlookup head.1]; simp [lookup])
          have hmem' : head' ∈ head :: rest :=
            mem_of_lookup (by rw [hlookup head'.1]; simp [lookup])
          have hhead : head = head' := by
            rcases List.mem_cons.1 hmem with h | h
            · exact h
            · rcases List.mem_cons.1 hmem' with h' | h'
              · exact h'.symm
              · exact absurd (habove _ h') (lt_asymm (habove' _ h))
          subst hhead
          refine congrArg _ (ih hrest hrest' fun name => ?_)
          have h := hlookup name
          by_cases hn : head.1 = name
          · subst hn
            -- Below the head no entry has the head's name.
            rw [lookup_eq_none_iff.2, lookup_eq_none_iff.2]
            · intro hname
              obtain ⟨value, hvalue⟩ := mem_names_iff.1 hname
              exact lt_irrefl _ (habove' (head.1, value) hvalue)
            · intro hname
              obtain ⟨value, hvalue⟩ := mem_names_iff.1 hname
              exact lt_irrefl _ (habove (head.1, value) hvalue)
          · simpa [lookup, hn] using h

theorem lookup_filter
    (keep : String × α → Bool) {entries : Entries α}
    (h : Ascending entries) (name : String) :
    lookup name (entries.filter keep) =
      (lookup name entries).filter fun value => keep (name, value) := by
  cases hfound : lookup name entries with
  | none =>
      rw [lookup_eq_none_iff] at hfound
      simp only [Option.filter_none, lookup_eq_none_iff]
      intro hname
      obtain ⟨value, hvalue⟩ := mem_names_iff.1 hname
      exact hfound (mem_names_iff.2 ⟨value, (List.mem_filter.1 hvalue).1⟩)
  | some value =>
      have hmem := mem_of_lookup hfound
      by_cases hkeep : keep (name, value)
      · rw [Option.filter_some, if_pos hkeep]
        exact (h.filter keep).lookup_of_mem (List.mem_filter.2 ⟨hmem, hkeep⟩)
      · rw [Option.filter_some, if_neg hkeep, lookup_eq_none_iff]
        intro hname
        obtain ⟨other, hother⟩ := mem_names_iff.1 hname
        obtain ⟨hmem', hkeep'⟩ := List.mem_filter.1 hother
        have heq : value = other := by
          have := h.lookup_of_mem hmem'
          rw [hfound] at this
          exact Option.some.inj this
        exact hkeep (heq ▸ hkeep')

end Ascending

private theorem lookup_foldl_insert
    (name : String) (entries table : Entries α) :
    lookup name
        (entries.foldl (fun t entry => insert entry.1 entry.2 t) table) =
      (lookup name entries.reverse).or (lookup name table) := by
  induction entries generalizing table with
  | nil => simp [lookup]
  | cons head rest ih =>
      obtain ⟨n, value⟩ := head
      rw [List.foldl_cons, ih, lookup_insert, List.reverse_cons, lookup_append]
      by_cases hn : n = name <;>
        cases lookup name rest.reverse <;> simp [lookup, hn]

/-- Sorting keeps, of equal names, the last entry. -/
theorem lookup_sort
    (name : String) (entries : Entries α) :
    lookup name (sort entries) = lookup name entries.reverse := by
  rw [sort, lookup_foldl_insert]
  cases lookup name entries.reverse <;> rfl

theorem mem_names_sort
    {name : String} {entries : Entries α} :
    name ∈ names (sort entries) ↔ name ∈ names entries := by
  have h : lookup name (sort entries) = none ↔
      lookup name entries.reverse = none := by rw [lookup_sort]
  rw [lookup_eq_none_iff, lookup_eq_none_iff, not_iff_not] at h
  simpa [names] using h

theorem Ascending.sort_eq
    {entries : Entries α} (h : Ascending entries) :
    Entries.sort entries = entries := by
  refine Ascending.ext (Ascending.sort entries) h fun name => ?_
  rw [lookup_sort]
  cases hfound : lookup name entries with
  | none =>
      rw [lookup_eq_none_iff] at hfound ⊢
      simpa [Entries.names] using hfound
  | some value =>
      -- The names of the reversed list are descending, so they are distinct.
      have hmem := mem_of_lookup hfound
      cases hrev : lookup name entries.reverse with
      | none =>
          rw [lookup_eq_none_iff] at hrev
          exact absurd (mem_names_iff.2 ⟨value, by simpa using hmem⟩) hrev
      | some other =>
          have hother := h.lookup_of_mem (List.mem_reverse.1 (mem_of_lookup hrev))
          rw [hfound] at hother
          exact hother.symm

/-- Sorting adds no entry. -/
theorem mem_of_mem_sort
    {entry : String × α} {entries : Entries α} (h : entry ∈ sort entries) :
    entry ∈ entries := by
  have hlookup : lookup entry.1 (sort entries) = some entry.2 :=
    (Ascending.sort entries).lookup_of_mem h
  rw [lookup_sort] at hlookup
  exact List.mem_reverse.1 (mem_of_lookup hlookup)

/-- An entry whose name occurs once survives sorting. -/
theorem mem_sort_iff
    {entry : String × α} {entries : Entries α} (hnodup : (names entries).Nodup) :
    entry ∈ sort entries ↔ entry ∈ entries := by
  refine ⟨mem_of_mem_sort, fun hmem => ?_⟩
  obtain ⟨other, hother⟩ := mem_names_iff.1
    (mem_names_sort.2 (mem_names_iff.2 ⟨entry.2, hmem⟩))
  have heq : (entry.1, other) = entry := by
    refine List.inj_on_of_nodup_map hnodup (mem_of_mem_sort hother) hmem rfl
  exact heq ▸ hother

theorem sort_perm
    {entries : Entries α} (hnodup : (names entries).Nodup) :
    (sort entries).Perm entries :=
  (List.perm_ext_iff_of_nodup (List.Nodup.of_map _ (Ascending.sort entries).nodup_names)
    (List.Nodup.of_map _ hnodup)).2 fun _ => mem_sort_iff hnodup

/-- Sorting gives the ascending list of the entries. -/
theorem sort_eq_of_mem_iff
    {entries sorted : Entries α} (hnodup : (names entries).Nodup)
    (hsorted : Ascending sorted) (h : ∀ entry, entry ∈ entries ↔ entry ∈ sorted) :
    sort entries = sorted := by
  refine (Ascending.sort entries).ext hsorted fun name => ?_
  refine Option.ext fun value => ?_
  rw [(Ascending.sort entries).lookup_eq_some_iff, hsorted.lookup_eq_some_iff,
    mem_sort_iff hnodup, h]

theorem length_insert
    {name : String} {value : α} {entries : Entries α}
    (h : Ascending entries) :
    (insert name value entries).length =
      if name ∈ names entries then entries.length
      else entries.length + 1 := by
  induction entries with
  | nil => simp [insert, names]
  | cons head rest ih =>
      obtain ⟨habove, hrest⟩ := List.pairwise_cons.1 h
      simp only [insert]
      split
      · next hless =>
        have hne : name ≠ head.1 := ne_of_gt hless
        rw [List.length_cons, ih hrest]
        by_cases hmem : name ∈ names rest
        · simp [mem_names_cons, hmem]
        · simp [mem_names_cons, hmem, hne]
      · next hnotLess =>
        split
        · next hsame => simp [mem_names_cons, hsame]
        · next hdifferent =>
          have hless : name < head.1 :=
            lt_of_le_of_ne (not_lt.1 hnotLess) fun e => hdifferent e.symm
          have hnot : name ∉ names rest := by
            intro hname
            obtain ⟨v, hv⟩ := mem_names_iff.1 hname
            exact lt_asymm hless (habove _ hv)
          simp [mem_names_cons, hnot, hless.ne]

end Entries

namespace NameTable

variable {α : Type u} {β : Type v}

theorem mem_names_iff_get?
    {table : NameTable α} {name : String} :
    name ∈ table.names ↔ ∃ value, table.get? name = some value := by
  rw [← Option.ne_none_iff_exists', Ne, get?, Entries.lookup_eq_none_iff, not_not]
  rfl

theorem get?_eq_none_iff
    {table : NameTable α} {name : String} :
    table.get? name = none ↔ name ∉ table.names :=
  Entries.lookup_eq_none_iff

theorem get?_eq_some_iff
    {table : NameTable α} {name : String} {value : α} :
    table.get? name = some value ↔ (name, value) ∈ table.entries :=
  table.ascending.lookup_eq_some_iff

theorem pairwise_names (table : NameTable α) :
    table.names.Pairwise (· < ·) :=
  table.ascending.names

theorem nodup_names (table : NameTable α) :
    table.names.Nodup :=
  table.ascending.nodup_names

@[simp] theorem length_names (table : NameTable α) :
    table.names.length = table.size := by
  simp [names, Entries.names, size]

theorem size_le_one_iff
    {table : NameTable α} :
    table.size ≤ 1 ↔ ∀ a ∈ table.names, ∀ b ∈ table.names, a = b := by
  rw [← length_names]
  have hnodup := table.nodup_names
  match hnames : table.names with
  | [] => simp
  | [name] => simp
  | first :: second :: rest =>
      rw [hnames, List.nodup_cons] at hnodup
      refine iff_of_false (by simp) fun h => hnodup.1 ?_
      rw [h first (by simp) second (by simp)]
      exact List.mem_cons_self ..

/-- Tables with the same lookups are equal. -/
theorem ext_get?
    {first second : NameTable α}
    (hget : ∀ name, first.get? name = second.get? name) :
    first = second := by
  obtain ⟨entries, hentries⟩ := first
  obtain ⟨entries', hentries'⟩ := second
  have : entries = entries' := hentries.ext hentries' hget
  subst this
  rfl

theorem isEmpty_iff (table : NameTable α) : table.isEmpty = true ↔ table = .empty := by
  cases table with
  | mk entries hascending => simp [isEmpty, empty]

@[simp] theorem get?_empty (name : String) :
    (empty : NameTable α).get? name = none := rfl

@[simp] theorem names_empty :
    (empty : NameTable α).names = [] := rfl

theorem mem_names_insert
    {table : NameTable α} {name key : String} {value : α} :
    key ∈ (table.insert name value).names ↔
      key = name ∨ key ∈ table.names :=
  Entries.mem_names_insert

theorem size_insert
    (table : NameTable α) (name : String) (value : α) :
    (table.insert name value).size =
      if name ∈ table.names then table.size else table.size + 1 :=
  Entries.length_insert table.ascending

theorem get?_modify
    (table : NameTable α) (name key : String) (f : α → α) :
    (table.modify name f).get? key =
      if name = key then (table.get? key).map f else table.get? key := by
  unfold modify
  cases hget : table.get? name with
  | none =>
      by_cases h : name = key
      · subst h
        simp [hget]
      · simp [h]
  | some value =>
      rw [get?_insert]
      by_cases h : name = key
      · subst h
        simp [hget]
      · simp [h]

@[simp] theorem mem_names_modify
    {table : NameTable α} {name key : String} {f : α → α} :
    key ∈ (table.modify name f).names ↔ key ∈ table.names := by
  rw [mem_names_iff_get?, mem_names_iff_get?, get?_modify]
  split <;> simp

@[simp] theorem size_modify
    (table : NameTable α) (name : String) (f : α → α) :
    (table.modify name f).size = table.size := by
  unfold modify
  cases hget : table.get? name with
  | none => rfl
  | some value =>
      rw [size_insert, if_pos (mem_names_iff_get?.2 ⟨value, hget⟩)]

@[simp] theorem get?_map
    (f : α → β) (table : NameTable α) (name : String) :
    (table.map f).get? name = (table.get? name).map f :=
  Entries.lookup_mapValues f name table.entries

theorem map_map
    {γ : Type*} (f : α → β) (g : β → γ) (table : NameTable α) :
    (table.map f).map g = table.map fun a => g (f a) := by
  refine ext_get? fun name => ?_
  rw [get?_map, get?_map, get?_map, Option.map_map]
  rfl

@[simp] theorem names_map
    (f : α → β) (table : NameTable α) :
    (table.map f).names = table.names :=
  Entries.names_mapValues f table.entries

@[simp] theorem get?_mapEntries
    (f : String → α → β) (table : NameTable α) (name : String) :
    (table.mapEntries f).get? name = (table.get? name).map (f name) :=
  Entries.lookup_mapEntries f name table.entries

@[simp] theorem names_mapEntries
    (f : String → α → β) (table : NameTable α) :
    (table.mapEntries f).names = table.names :=
  Entries.names_mapEntries f table.entries

theorem modify_eq_mapEntries
    (table : NameTable α) (name : String) (f : α → α) :
    table.modify name f = table.mapEntries fun key a => if key = name then f a else a := by
  refine ext_get? fun key => ?_
  rw [get?_modify, get?_mapEntries]
  by_cases h : name = key
  · simp [h]
  · simp [h, Ne.symm h]

theorem modify_modify
    (table : NameTable α) (name : String) (f g : α → α) :
    (table.modify name f).modify name g = table.modify name fun a => g (f a) := by
  refine ext_get? fun key => ?_
  rw [get?_modify, get?_modify, get?_modify]
  split
  · rw [Option.map_map]
    rfl
  · rfl

/-- Of the entries, only the one with the name is changed. -/
theorem exists_entries_modify
    {table : NameTable α} {name : String} {a : α} (h : table.get? name = some a) :
    ∃ front back, table.entries = front ++ (name, a) :: back ∧
      ∀ f : α → α, (table.modify name f).entries = front ++ (name, f a) :: back := by
  obtain ⟨front, back, hentries⟩ := List.append_of_mem (get?_eq_some_iff.1 h)
  refine ⟨front, back, hentries, fun f => ?_⟩
  have hnodup : (front.map Prod.fst ++ name :: back.map Prod.fst).Nodup := by
    have hnames := table.nodup_names
    rw [names, Entries.names, hentries, List.map_append, List.map_cons] at hnames
    exact hnames
  have hother : ∀ entries : Entries α, name ∉ entries.map Prod.fst →
      (entries.map fun entry => (entry.1, if entry.1 = name then f entry.2 else entry.2)) =
        entries := by
    intro entries hname
    refine (List.map_congr_left fun entry hentry => ?_).trans (List.map_id entries)
    have hne : entry.1 ≠ name := fun heq => hname (heq ▸ List.mem_map_of_mem hentry)
    rw [if_neg hne, id]
  obtain ⟨hfront, hback⟩ := List.nodup_cons.1 (List.nodup_middle.1 hnodup)
  rw [List.mem_append, not_or] at hfront
  rw [modify_eq_mapEntries]
  show table.entries.map (fun entry => (entry.1, if entry.1 = name then f entry.2 else entry.2)) = _
  rw [hentries, List.map_append, List.map_cons, hother front hfront.1, hother back hfront.2]
  simp

theorem get?_filter
    (keep : String × α → Bool) (table : NameTable α) (name : String) :
    (table.filter keep).get? name =
      (table.get? name).filter fun value => keep (name, value) :=
  table.ascending.lookup_filter keep name

theorem mem_names_filter
    {keep : String × α → Bool} {table : NameTable α} {name : String} :
    name ∈ (table.filter keep).names ↔
      ∃ value, table.get? name = some value ∧ keep (name, value) := by
  rw [mem_names_iff_get?]
  simp [get?_filter, Option.filter_eq_some_iff]

theorem isEmpty_filter_iff
    {keep : String × α → Bool} {table : NameTable α} :
    (table.filter keep).isEmpty = true ↔
      ∀ name value, table.get? name = some value → ¬ keep (name, value) := by
  simp only [isEmpty, filter, List.isEmpty_iff, List.filter_eq_nil_iff, Prod.forall,
    get?_eq_some_iff]

theorem mem_names_erase
    {table : NameTable α} {name key : String} :
    key ∈ (table.erase name).names ↔ key ∈ table.names ∧ key ≠ name := by
  rw [erase, mem_names_filter, mem_names_iff_get?]
  simp

theorem get?_erase
    (table : NameTable α) (name key : String) :
    (table.erase name).get? key = if key = name then none else table.get? key := by
  rw [erase, get?_filter]
  cases table.get? key with
  | none => simp
  | some value => by_cases h : key = name <;> simp [Option.filter_some, h]

theorem get?_ofList
    (entries : List (String × α)) (name : String) :
    (ofList entries).get? name = Entries.lookup name entries.reverse :=
  Entries.lookup_sort name entries

/-- A table is the table of its entries. -/
theorem ofList_entries (table : NameTable α) : ofList table.entries = table := by
  cases table with
  | mk entries hascending => exact NameTable.mk.injEq .. |>.mpr hascending.sort_eq

theorem entries_foldl_insert (table : NameTable α) (entries : List (String × α)) :
    (entries.foldl (fun found entry => found.insert entry.1 entry.2) table).entries =
      entries.foldl (fun found entry => Entries.insert entry.1 entry.2 found) table.entries := by
  induction entries generalizing table with
  | nil => rfl
  | cons head rest ih => exact ih _

/-- Entries may be put into a table one by one. -/
theorem foldl_insert (entries : List (String × α)) :
    entries.foldl (fun found entry => found.insert entry.1 entry.2) (empty : NameTable α) =
      ofList entries :=
  NameTable.mk.injEq .. |>.mpr (entries_foldl_insert empty entries)

/-- Of equal names the last entry counts. -/
theorem get?_foldl_insert
    (table : NameTable α) (entries : List (String × α)) (name : String) :
    (entries.foldl (fun found entry => found.insert entry.1 entry.2) table).get? name =
      ((ofList entries).get? name).or (table.get? name) := by
  rw [get?_ofList, get?, entries_foldl_insert]
  exact Entries.lookup_foldl_insert name entries table.entries

theorem empty_union (table : NameTable α) : empty.union table = table := by
  rw [union, foldl_insert, ofList_entries]

theorem get?_union
    (first second : NameTable α) (name : String) :
    (first.union second).get? name = (second.get? name).or (first.get? name) := by
  rw [union, get?_foldl_insert, ofList_entries]

theorem union_ofList
    (table : NameTable α) (entries : List (String × α)) :
    table.union (ofList entries) =
      entries.foldl (fun found entry => found.insert entry.1 entry.2) table :=
  ext_get? fun name => by rw [get?_union, get?_foldl_insert]

/-- All entries of some tables; of equal names the last entry counts. -/
def unionAll (tables : List (NameTable α)) : NameTable α :=
  tables.foldl union .empty

theorem unionAll_singleton (table : NameTable α) : unionAll [table] = table :=
  empty_union table

theorem get?_foldl_union
    (table : NameTable α) (tables : List (NameTable α)) (name : String) :
    (tables.foldl union table).get? name =
      (tables.reverse.findSome? fun other => other.get? name).or (table.get? name) := by
  induction tables generalizing table with
  | nil => rfl
  | cons head rest ih =>
      rw [List.foldl_cons, ih, get?_union, List.reverse_cons, List.findSome?_append, Option.or_assoc]
      cases hhead : head.get? name <;> simp [hhead]

theorem get?_unionAll
    (tables : List (NameTable α)) (name : String) :
    (unionAll tables).get? name = tables.reverse.findSome? fun table => table.get? name := by
  rw [unionAll, get?_foldl_union, get?_empty, Option.or_none]

theorem exists_of_get?_unionAll
    {tables : List (NameTable α)} {name : String} {value : α}
    (h : (unionAll tables).get? name = some value) :
    ∃ table ∈ tables, table.get? name = some value := by
  rw [get?_unionAll] at h
  obtain ⟨table, htable, hvalue⟩ := List.exists_of_findSome?_eq_some h
  exact ⟨table, List.mem_reverse.1 htable, hvalue⟩

theorem mem_names_unionAll
    {tables : List (NameTable α)} {name : String} :
    name ∈ (unionAll tables).names ↔ ∃ table ∈ tables, name ∈ table.names := by
  rw [← not_iff_not, ← get?_eq_none_iff, get?_unionAll, List.findSome?_eq_none_iff]
  simp only [List.mem_reverse, get?_eq_none_iff, not_exists, not_and]

theorem map_unionAll
    (f : α → β) (tables : List (NameTable α)) :
    (unionAll tables).map f = unionAll (tables.map fun table => table.map f) := by
  refine ext_get? fun name => ?_
  rw [get?_map, get?_unionAll, get?_unionAll, ← List.map_reverse, List.findSome?_map,
    List.map_findSome?]
  simp only [Function.comp_def, get?_map]

theorem map_ofList
    (f : α → β) (entries : List (String × α)) :
    (ofList entries).map f = ofList (Entries.mapValues f entries) := by
  refine ext_get? fun name => ?_
  rw [get?_map, get?_ofList, get?_ofList, Entries.mapValues, ← List.map_reverse]
  exact (Entries.lookup_mapValues f name entries.reverse).symm

theorem mem_of_get?_ofList
    {entries : List (String × α)} {name : String} {value : α}
    (h : (ofList entries).get? name = some value) : (name, value) ∈ entries := by
  rw [get?_ofList] at h
  exact List.mem_reverse.1 (Entries.mem_of_lookup h)

/-- Where no name occurs twice, every entry is found. -/
theorem get?_ofList_eq_some_iff
    {entries : List (String × α)} {name : String} {value : α}
    (hnodup : (Entries.names entries).Nodup) :
    (ofList entries).get? name = some value ↔ (name, value) ∈ entries :=
  get?_eq_some_iff.trans (Entries.mem_sort_iff hnodup)

theorem mem_names_ofList
    {entries : List (String × α)} {name : String} :
    name ∈ (ofList entries).names ↔ name ∈ Entries.names entries :=
  Entries.mem_names_sort

end NameTable

namespace NameSet

@[simp] theorem mem_names_ofList
    {list : List String} {name : String} :
    name ∈ (ofList list).names ↔ name ∈ list := by
  rw [ofList, NameTable.mem_names_ofList]
  simp [Entries.names]

theorem size_ofList
    {list : List String} (hnodup : list.Nodup) : (ofList list).size = list.length := by
  have hnames : (Entries.names (list.map fun name => (name, ()))).Nodup := by
    simpa [Entries.names, Function.comp_def] using hnodup
  exact (Entries.sort_perm hnames).length_eq.trans (List.length_map ..)

/-- Sets with the same names are equal. -/
theorem ext_names
    {first second : NameSet} (h : ∀ name, name ∈ first.names ↔ name ∈ second.names) :
    first = second := by
  refine NameTable.ext_get? fun name => Option.ext fun value => ?_
  have hget : ∀ names : NameSet, NameTable.get? names name = some value ↔ name ∈ names.names :=
    fun names => (NameTable.mem_names_iff_get?.trans ⟨fun ⟨_, hvalue⟩ => hvalue,
      fun hvalue => ⟨value, hvalue⟩⟩).symm
  rw [hget, hget, h]

theorem mem_names_add
    {names : NameSet} {name key : String} :
    key ∈ (add names name).names ↔ key = name ∨ key ∈ names.names :=
  NameTable.mem_names_insert

theorem mem_names_foldl_add
    {names : NameSet} {list : List String} {key : String} :
    key ∈ (list.foldl add names).names ↔ key ∈ list ∨ key ∈ names.names := by
  induction list generalizing names with
  | nil => simp
  | cons head rest ih =>
      rw [List.foldl_cons, ih, mem_names_add, List.mem_cons]
      exact or_left_comm.trans or_assoc.symm

/-- Each of some different new names counts. -/
theorem size_foldl_add
    {names : NameSet} {list : List String} (hnodup : list.Nodup)
    (hnew : ∀ name ∈ list, name ∉ names.names) :
    (list.foldl add names).size = names.size + list.length := by
  induction list generalizing names with
  | nil => rfl
  | cons head rest ih =>
      obtain ⟨hnot, hrest⟩ := List.nodup_cons.1 hnodup
      have hhead : (add names head).size = names.size + 1 :=
        (NameTable.size_insert names head ()).trans (if_neg (hnew head (List.mem_cons_self ..)))
      have hnew' : ∀ name ∈ rest, name ∉ (add names head).names := by
        intro name hname hmem
        rcases mem_names_add.1 hmem with heq | hmem
        · exact hnot (heq ▸ hname)
        · exact hnew name (List.mem_cons_of_mem _ hname) hmem
      rw [List.foldl_cons, ih hrest hnew', hhead, List.length_cons]
      omega

end NameSet

namespace NameTable

variable {table : NameTable NameSet} {key name u v : String}

/-- The names in the set under a key. -/
def namesUnder (table : NameTable NameSet) (key : String) : List String :=
  ((table.get? key).map names).getD []

theorem mem_namesUnder_iff :
    v ∈ table.namesUnder key ↔ ∃ found, table.get? key = some found ∧ v ∈ found.names := by
  unfold namesUnder
  cases table.get? key with
  | none => simp
  | some found => simp

/-- Adding a name to the set under a key leaves the other sets alone. -/
theorem mem_namesUnder_insert_add :
    v ∈ (table.insert name (NameSet.add ((table.get? name).getD .empty) u)).namesUnder key ↔
      key = name ∧ v = u ∨ v ∈ table.namesUnder key := by
  rw [mem_namesUnder_iff, get?_insert]
  by_cases h : name = key
  · subst h
    cases hget : table.get? name with
    | none => simp [hget, namesUnder, NameSet.mem_names_add]
    | some found => simp [hget, namesUnder, NameSet.mem_names_add]
  · rw [if_neg h, ← mem_namesUnder_iff]
    simp [Ne.symm h]

theorem namesUnder_of_get?
    {found : NameSet} (h : table.get? key = some found) : table.namesUnder key = found.names := by
  rw [namesUnder, h]
  rfl

/-- No set in the table is empty. -/
def SetsNonempty (table : NameTable NameSet) : Prop :=
  ∀ key found, table.get? key = some found → found.names ≠ []

theorem setsNonempty_empty : SetsNonempty empty :=
  fun _ _ h => by cases h

theorem SetsNonempty.insert_add
    (h : table.SetsNonempty) (names : NameSet) :
    (table.insert name (NameSet.add names u)).SetsNonempty := by
  intro key found hfound
  rw [get?_insert] at hfound
  split at hfound
  · cases hfound
    exact List.ne_nil_of_mem (NameSet.mem_names_add.2 (Or.inl rfl))
  · exact h key found hfound

theorem SetsNonempty.mem_names_iff
    (h : table.SetsNonempty) : key ∈ table.names ↔ ∃ name, name ∈ table.namesUnder key := by
  rw [mem_names_iff_get?]
  constructor
  · rintro ⟨found, hfound⟩
    obtain ⟨name, hname⟩ := List.exists_mem_of_ne_nil _ (h key found hfound)
    exact ⟨name, mem_namesUnder_iff.2 ⟨found, hfound, hname⟩⟩
  · rintro ⟨name, hname⟩
    obtain ⟨found, hfound, -⟩ := mem_namesUnder_iff.1 hname
    exact ⟨found, hfound⟩

/-- Tables with the same names under each key are equal, unless one of them has
a key without names. -/
theorem ext_namesUnder
    {first second : NameTable NameSet} (hfirst : first.SetsNonempty)
    (hsecond : second.SetsNonempty)
    (h : ∀ key name, name ∈ first.namesUnder key ↔ name ∈ second.namesUnder key) :
    first = second := by
  refine ext_get? fun key => ?_
  have hkey : key ∈ first.names ↔ key ∈ second.names := by
    rw [hfirst.mem_names_iff, hsecond.mem_names_iff]
    exact exists_congr (h key)
  cases hget : first.get? key with
  | none =>
      rw [eq_comm, get?_eq_none_iff, ← hkey, ← get?_eq_none_iff]
      exact hget
  | some found =>
      obtain ⟨found', hget'⟩ := mem_names_iff_get?.1 (hkey.1 (mem_names_iff_get?.2 ⟨found, hget⟩))
      have hnames : ∀ name, name ∈ found.names ↔ name ∈ found'.names := by
        intro name
        rw [← namesUnder_of_get? hget, ← namesUnder_of_get? hget']
        exact h key name
      rw [hget', NameSet.ext_names hnames]

/-- So it is when the name is added under several keys. -/
theorem mem_namesUnder_foldl_insert_add (keys : List String) :
    v ∈ (keys.foldl (fun table name =>
        table.insert name (NameSet.add ((table.get? name).getD .empty) u)) table).namesUnder key ↔
      key ∈ keys ∧ v = u ∨ v ∈ table.namesUnder key := by
  induction keys generalizing table with
  | nil => simp
  | cons head rest ih =>
      rw [List.foldl_cons, ih, mem_namesUnder_insert_add, List.mem_cons]
      tauto

end NameTable

end CloudTemplate
