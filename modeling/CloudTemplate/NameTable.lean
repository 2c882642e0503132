/-!
# Name tables

A name table holds one value per name and lists its entries in ascending order of the names.
Names are compared by code point.

The operations on bare entry lists live in `Entries`, so that recursive types may nest a list
of entries; `NameTable` adds the order as an invariant.

Main statements: insertion keeps the order (`Entries.Ascending.insert`), and what a lookup finds
after an insertion (`Entries.lookup_insert`).
-/

namespace CloudTemplate

universe u v

/-- Entries of a table under construction. -/
abbrev Entries (α : Type u) := List (String × α)

namespace Entries

variable {α : Type u} {β : Type v}

/-- The names of the entries, in order. -/
def names (entries : Entries α) : List String :=
  entries.map Prod.fst

/-- Strictly ascending names: sorted, and no name twice. -/
def Ascending (entries : Entries α) : Prop :=
  entries.Pairwise fun a b => a.1 < b.1

/-- The first value under a name. -/
def lookup (name : String) : Entries α → Option α
  | [] => none
  | (n, value) :: rest => if n = name then some value else lookup name rest

/-- Whether some entry has the name. -/
def hasName (name : String) : Entries α → Bool
  | [] => false
  | (n, _) :: rest => n == name || hasName name rest

/-- Put a value under a name, in front of the first larger name, replacing an equal one. -/
def insert (name : String) (value : α) : Entries α → Entries α
  | [] => [(name, value)]
  | entry :: rest =>
    if entry.1 < name then entry :: insert name value rest
    else if entry.1 = name then (name, value) :: rest
    else (name, value) :: entry :: rest

/-- Put a value under a name: an equal name keeps its place, a new one goes to the end. -/
def put (name : String) (value : α) : Entries α → Entries α
  | [] => [(name, value)]
  | (n, old) :: rest =>
    if n = name then (n, value) :: rest else (n, old) :: put name value rest

/-- Apply a function to each value. -/
def mapValues (f : α → β) (entries : Entries α) : Entries β :=
  entries.map fun entry => (entry.1, f entry.2)

/-- Apply a function to each name and its value. -/
def mapEntries (f : String → α → β) (entries : Entries α) : Entries β :=
  entries.map fun entry => (entry.1, f entry.1 entry.2)

/-- Sort the entries by name; of equal names the last entry wins. -/
def sort (entries : Entries α) : Entries α :=
  entries.foldl (fun table entry => insert entry.1 entry.2 table) []

theorem mem_insert {name : String} {value : α} {entry : String × α} {entries : Entries α}
    (h : entry ∈ insert name value entries) : entry = (name, value) ∨ entry ∈ entries := by
  induction entries with
  | nil => exact Or.inl (by simpa [insert] using h)
  | cons head rest ih =>
    simp only [insert] at h
    split at h
    · rcases List.mem_cons.1 h with h | h
      · exact Or.inr (h ▸ List.mem_cons_self ..)
      · exact (ih h).imp id (List.mem_cons_of_mem _)
    · split at h
      · exact (List.mem_cons.1 h).imp id (List.mem_cons_of_mem _)
      · exact List.mem_cons.1 h

theorem Ascending.nil : Ascending ([] : Entries α) := List.Pairwise.nil

theorem Ascending.insert (name : String) (value : α) {entries : Entries α}
    (h : Ascending entries) : Ascending (Entries.insert name value entries) := by
  induction entries with
  | nil => exact List.pairwise_singleton ..
  | cons head rest ih =>
    obtain ⟨above, ordered⟩ := List.pairwise_cons.1 h
    simp only [Entries.insert]
    split
    · next less =>
      refine List.pairwise_cons.2 ⟨fun entry mem => ?_, ih ordered⟩
      rcases mem_insert mem with rfl | mem
      · exact less
      · exact above entry mem
    · next notLess =>
      split
      · next same => exact List.pairwise_cons.2 ⟨same ▸ above, ordered⟩
      · next different =>
        have less : name < head.1 :=
          Std.lt_of_le_of_ne (Std.not_lt.1 notLess) (Ne.symm different)
        refine List.pairwise_cons.2 ⟨fun entry mem => ?_, h⟩
        rcases List.mem_cons.1 mem with rfl | mem
        · exact less
        · exact String.lt_trans less (above entry mem)

theorem Ascending.mapValues (f : α → β) {entries : Entries α} (h : Ascending entries) :
    Ascending (Entries.mapValues f entries) :=
  List.pairwise_map.2 h

theorem Ascending.mapEntries (f : String → α → β) {entries : Entries α} (h : Ascending entries) :
    Ascending (Entries.mapEntries f entries) :=
  List.pairwise_map.2 h

theorem Ascending.filter (keep : String × α → Bool) {entries : Entries α}
    (h : Ascending entries) : Ascending (List.filter keep entries) :=
  List.Pairwise.filter keep h

theorem Ascending.sort (entries : Entries α) : Ascending (Entries.sort entries) := by
  suffices ∀ table : Entries α, Ascending table →
      Ascending (entries.foldl (fun table entry => Entries.insert entry.1 entry.2 table) table) from
    this [] .nil
  induction entries with
  | nil => exact fun _ h => h
  | cons entry rest ih => exact fun table h => ih _ (h.insert entry.1 entry.2)

theorem lookup_insert (name key : String) (value : α) (entries : Entries α) :
    lookup key (insert name value entries) =
      if name = key then some value else lookup key entries := by
  induction entries with
  | nil => rfl
  | cons head rest ih =>
    obtain ⟨n, old⟩ := head
    simp only [insert]
    split
    · next less =>
      simp only [lookup, ih]
      by_cases h : n = key
      · subst h
        simp [show name ≠ n from fun same => String.lt_irrefl n (same ▸ less)]
      · simp [h]
    · split
      · next same =>
        subst same
        simp only [lookup]
        split <;> rfl
      · rfl

theorem names_mapEntries (f : String → α → β) (entries : Entries α) :
    names (mapEntries f entries) = names entries := by
  simp [mapEntries, names, Function.comp_def]

theorem hasName_iff {name : String} {entries : Entries α} :
    hasName name entries = true ↔ name ∈ names entries := by
  induction entries with
  | nil => simp [hasName, names]
  | cons head rest ih =>
    obtain ⟨n, old⟩ := head
    simp only [hasName, Bool.or_eq_true, beq_iff_eq, ih, names, List.map_cons, List.mem_cons]
    exact or_congr_left eq_comm

end Entries

/-- One value per name, in ascending order of the names. -/
structure NameTable (α : Type u) where
  entries : Entries α
  ascending : entries.Ascending
deriving DecidableEq

namespace NameTable

variable {α : Type u} {β : Type v}

/-- The table without entries. -/
def empty : NameTable α := ⟨[], .nil⟩

instance : EmptyCollection (NameTable α) := ⟨empty⟩

instance : Inhabited (NameTable α) := ⟨empty⟩

/-- The names, ascending. -/
def names (table : NameTable α) : List String :=
  table.entries.names

/-- The values, in ascending order of their names. -/
def values (table : NameTable α) : List α :=
  table.entries.map Prod.snd

/-- The number of entries. -/
def size (table : NameTable α) : Nat :=
  table.entries.length

/-- Whether there is no entry. -/
def isEmpty (table : NameTable α) : Bool :=
  table.entries.isEmpty

/-- Whether the name has a value. -/
def contains (table : NameTable α) (name : String) : Bool :=
  table.entries.hasName name

/-- The value under a name. -/
def get? (table : NameTable α) (name : String) : Option α :=
  table.entries.lookup name

/-- Put a value under a name, replacing the value that stood there. -/
def insert (table : NameTable α) (name : String) (value : α) : NameTable α :=
  ⟨table.entries.insert name value, table.ascending.insert name value⟩

/-- Change the value under a name, if there is one. -/
def modify (table : NameTable α) (name : String) (f : α → α) : NameTable α :=
  match table.get? name with
  | none => table
  | some value => table.insert name (f value)

/-- The table of a list of entries; of equal names the last entry wins. -/
def ofList (entries : List (String × α)) : NameTable α :=
  ⟨Entries.sort entries, .sort entries⟩

/-- Apply a function to each value. -/
def map (f : α → β) (table : NameTable α) : NameTable β :=
  ⟨table.entries.mapValues f, table.ascending.mapValues f⟩

/-- Apply a function to each name and its value. -/
def mapEntries (f : String → α → β) (table : NameTable α) : NameTable β :=
  ⟨table.entries.mapEntries f, table.ascending.mapEntries f⟩

/-- Keep the entries that pass a test. -/
def filter (keep : String × α → Bool) (table : NameTable α) : NameTable α :=
  ⟨table.entries.filter keep, table.ascending.filter keep⟩

/-- Remove a name. -/
def erase (table : NameTable α) (name : String) : NameTable α :=
  table.filter fun entry => entry.1 != name

/-- All entries of the second table added to the first; the second wins. -/
def union (first second : NameTable α) : NameTable α :=
  second.entries.foldl (fun table entry => table.insert entry.1 entry.2) first

theorem get?_insert (table : NameTable α) (name key : String) (value : α) :
    (table.insert name value).get? key = if name = key then some value else table.get? key :=
  Entries.lookup_insert ..

theorem contains_iff {table : NameTable α} {name : String} :
    table.contains name = true ↔ name ∈ table.names :=
  Entries.hasName_iff

end NameTable

/-- A set of names, listed in ascending order. -/
abbrev NameSet := NameTable Unit

namespace NameSet

/-- Add a name. -/
def add (names : NameSet) (name : String) : NameSet :=
  NameTable.insert names name ()

/-- The set of the names of a list. -/
def ofList (names : List String) : NameSet :=
  NameTable.ofList (names.map fun name => (name, ()))

end NameSet

end CloudTemplate
