import Mathlib.Data.List.Perm.Basic
import CloudTemplate.Proofs.NameTable

/-!
# Lists as enumerations of places

A list that nested loops build has one item for each place that the loops come
to.  `Enumerates before holds list` says so without the loops: the list has
what holds at each place, for each place once, in the order of the places.

There is one lemma for each way of building such a list: by index, from a
table, by a loop in a loop (`Enumerates.flatMap`), by leaving items out
(`Enumerates.filterMap`), and by putting two lists behind each other
(`Enumerates.append`).  Sorting such a list leaves it an enumeration, though
not in the order of the places (`Enumerates.perm`).
-/

namespace CloudTemplate

universe u v

/-- The list has what holds at each place, in the order of the places. -/
def Enumerates {ι : Type u} {α : Type v} (before : ι → ι → Prop)
    (holds : ι → α → Prop) (list : List α) : Prop :=
  ∃ placed : List (ι × α),
    placed.Pairwise (fun p q => before p.1 q.1) ∧
      (∀ place item, (place, item) ∈ placed ↔ holds place item) ∧
      placed.map Prod.snd = list

namespace Enumerates

variable {ι κ : Type u} {α β : Type v}
variable {before : ι → ι → Prop} {holds : ι → α → Prop} {list : List α}

section Use

theorem congr
    {holds' : ι → α → Prop} (h : Enumerates before holds list)
    (hiff : ∀ place item, holds place item ↔ holds' place item) :
    Enumerates before holds' list := by
  obtain ⟨placed, hordered, hmem, hlist⟩ := h
  exact ⟨placed, hordered, fun place item => (hmem place item).trans (hiff place item),
    hlist⟩

theorem mem_iff
    {item : α} (h : Enumerates before holds list) :
    item ∈ list ↔ ∃ place, holds place item := by
  obtain ⟨placed, -, hmem, rfl⟩ := h
  simp only [List.mem_map, Prod.exists, exists_eq_right, hmem]

theorem eq_nil_iff
    (h : Enumerates before holds list) :
    list = [] ↔ ∀ place item, ¬ holds place item := by
  rw [List.eq_nil_iff_forall_not_mem]
  simp only [h.mem_iff, not_exists]
  exact forall_comm

/-- The first item stands at the first place. -/
theorem head
    {first : α} {rest : List α} (h : Enumerates before holds (first :: rest)) :
    ∃ place, holds place first ∧
      ∀ other item, holds other item → other = place ∨ before place other := by
  obtain ⟨placed, hordered, hmem, hlist⟩ := h
  cases placed with
  | nil => cases hlist
  | cons head tail =>
      obtain ⟨place, item⟩ := head
      rw [List.map_cons, List.cons.injEq] at hlist
      obtain ⟨rfl, -⟩ := hlist
      rw [List.pairwise_cons] at hordered
      refine ⟨place, (hmem place item).1 (List.mem_cons_self ..), fun other found hother => ?_⟩
      rcases List.mem_cons.1 ((hmem other found).2 hother) with heq | htail
      · exact Or.inl (congrArg Prod.fst heq)
      · exact Or.inr (hordered.1 _ htail)

theorem mono
    {before' : ι → ι → Prop} (h : Enumerates before holds list)
    (hbefore : ∀ i j, before i j → before' i j) : Enumerates before' holds list := by
  obtain ⟨placed, hordered, hmem, hlist⟩ := h
  exact ⟨placed, hordered.imp fun hlt => hbefore _ _ hlt, hmem, hlist⟩

/-- Where it only counts that places differ, the items may come in any order. -/
theorem perm
    {list' : List α} (h : Enumerates (· ≠ ·) holds list) (hperm : list'.Perm list) :
    Enumerates (· ≠ ·) holds list' := by
  obtain ⟨placed, hordered, hmem, rfl⟩ := h
  obtain ⟨placed', rfl, hperm'⟩ :=
    (List.eq_map_comp_perm Prod.snd).ge list' placed hperm
  refine ⟨placed', ?_, fun place item => hperm'.mem_iff.trans (hmem place item), rfl⟩
  exact (hperm'.pairwise_iff fun hne => hne.symm).2 hordered

end Use

section Build

theorem nil (hnone : ∀ place item, ¬ holds place item) : Enumerates before holds [] :=
  ⟨[], List.Pairwise.nil, fun place item => by simp [hnone], rfl⟩

theorem singleton (before : ι → ι → Prop) (place : ι) (item : α) :
    Enumerates before (fun i a => i = place ∧ a = item) [item] :=
  ⟨[(place, item)], List.pairwise_singleton .., fun i a => by simp, rfl⟩

theorem toList (before : ι → ι → Prop) (place : ι) (found : Option α) :
    Enumerates before (fun i a => i = place ∧ found = some a) found.toList := by
  cases found with
  | none => exact nil fun _ _ h => by cases h.2
  | some item =>
      refine (singleton before place item).congr fun i a => ?_
      rw [Option.some.injEq, eq_comm (a := a)]

theorem getElem? (list : List α) :
    Enumerates (fun i j : Nat => i < j) (fun index item => list[index]? = some item) list := by
  refine ⟨list.zipIdx.map Prod.swap, ?_, fun index item => ?_, ?_⟩
  · have hindex : (list.zipIdx.map Prod.swap).map Prod.fst = List.range' 0 list.length := by
      simp [List.map_map, Function.comp_def]
    rw [← List.pairwise_map (f := Prod.fst) (R := (· < ·)), hindex]
    exact List.pairwise_lt_range'
  · simp [List.mem_zipIdx_iff_getElem?]
  · simp [List.map_map, Function.comp_def]

theorem mapIdx (f : Nat → α → β) (list : List α) :
    Enumerates (fun i j : Nat => i < j)
      (fun index b => ∃ a, list[index]? = some a ∧ f index a = b) (list.mapIdx f) := by
  refine (getElem? (list.mapIdx f)).congr fun index b => ?_
  rw [List.getElem?_mapIdx, Option.map_eq_some_iff]

theorem entries (table : NameTable α) :
    Enumerates (· < ·)
      (fun name entry => entry.1 = name ∧ table.get? name = some entry.2)
      table.entries := by
  refine ⟨table.entries.map fun entry => (entry.1, entry), ?_, fun name entry => ?_, ?_⟩
  · rw [List.pairwise_map]
    exact table.ascending
  · simp only [NameTable.get?_eq_some_iff, List.mem_map, Prod.mk.injEq]
    constructor
    · rintro ⟨given, hgiven, rfl, rfl⟩
      exact ⟨rfl, hgiven⟩
    · rintro ⟨rfl, hmem⟩
      exact ⟨entry, hmem, rfl, rfl⟩
  · simp [List.map_map, Function.comp_def]

theorem filterMap
    (h : Enumerates before holds list) (f : α → Option β) :
    Enumerates before (fun place b => ∃ a, holds place a ∧ f a = some b)
      (list.filterMap f) := by
  obtain ⟨placed, hordered, hmem, rfl⟩ := h
  refine ⟨placed.filterMap fun p => (f p.2).map fun b => (p.1, b), ?_, fun place b => ?_, ?_⟩
  · refine hordered.filterMap _ fun p q hbefore p' hp q' hq => ?_
    obtain ⟨b, -, rfl⟩ := Option.map_eq_some_iff.1 hp
    obtain ⟨c, -, rfl⟩ := Option.map_eq_some_iff.1 hq
    exact hbefore
  · simp only [List.mem_filterMap, Option.map_eq_some_iff, Prod.mk.injEq, Prod.exists]
    constructor
    · rintro ⟨i, a, hia, b', hb, rfl, rfl⟩
      exact ⟨a, (hmem _ _).1 hia, hb⟩
    · rintro ⟨a, ha, hb⟩
      exact ⟨place, a, (hmem _ _).2 ha, b, hb, rfl, rfl⟩
  · rw [List.map_filterMap, List.filterMap_map]
    refine List.filterMap_congr fun p _ => ?_
    cases h : f p.2 <;> simp [h]

theorem map
    (h : Enumerates before holds list) (f : α → β) :
    Enumerates before (fun place b => ∃ a, holds place a ∧ f a = b) (list.map f) := by
  have hmap := h.filterMap fun a => some (f a)
  simpa using hmap

/-- Places may be named in another way. -/
theorem rename
    (before' : κ → κ → Prop) (h : Enumerates before holds list) (name : ι → κ)
    (hname : ∀ i j, before i j → before' (name i) (name j)) :
    Enumerates before' (fun k item => ∃ i, k = name i ∧ holds i item) list := by
  obtain ⟨placed, hordered, hmem, rfl⟩ := h
  refine ⟨placed.map fun p => (name p.1, p.2), ?_, fun k item => ?_, ?_⟩
  · rw [List.pairwise_map]
    exact hordered.imp fun hbefore => hname _ _ hbefore
  · simp only [List.mem_map, Prod.mk.injEq, Prod.exists]
    constructor
    · rintro ⟨i, a, hia, rfl, rfl⟩
      exact ⟨i, rfl, (hmem _ _).1 hia⟩
    · rintro ⟨i, rfl, hi⟩
      exact ⟨i, item, (hmem _ _).2 hi, rfl, rfl⟩
  · simp [List.map_map, Function.comp_def]

theorem append
    {holds' : ι → α → Prop} {list' : List α}
    (h : Enumerates before holds list) (h' : Enumerates before holds' list')
    (hcross : ∀ i a j b, holds i a → holds' j b → before i j) :
    Enumerates before (fun place item => holds place item ∨ holds' place item)
      (list ++ list') := by
  obtain ⟨placed, hordered, hmem, rfl⟩ := h
  obtain ⟨placed', hordered', hmem', rfl⟩ := h'
  refine ⟨placed ++ placed', ?_, fun place item => ?_, ?_⟩
  · rw [List.pairwise_append]
    exact ⟨hordered, hordered', fun p hp q hq =>
      hcross _ _ _ _ ((hmem _ _).1 hp) ((hmem' _ _).1 hq)⟩
  · rw [List.mem_append, hmem, hmem']
  · rw [List.map_append]

/-- A loop in a loop: the place in the outer one counts first. -/
theorem flatMap
    {before' : κ → κ → Prop} {f : α → List β} {holds' : α → κ → β → Prop}
    (h : Enumerates before holds list)
    (hitem : ∀ item ∈ list, Enumerates before' (holds' item) (f item)) :
    Enumerates (Prod.Lex before before')
      (fun place b => ∃ a, holds place.1 a ∧ holds' a place.2 b) (list.flatMap f) := by
  obtain ⟨placed, hordered, hmem, rfl⟩ := h
  choose! inner hinner hmem' hlist using hitem
  have hin : ∀ p ∈ placed, p.2 ∈ placed.map Prod.snd := fun p hp => List.mem_map_of_mem hp
  refine ⟨placed.flatMap fun p => (inner p.2).map fun q => ((p.1, q.1), q.2),
    ?_, fun place b => ?_, ?_⟩
  · rw [List.pairwise_flatMap]
    constructor
    · intro p hp
      rw [List.pairwise_map]
      refine (hinner p.2 (hin p hp)).imp fun {q q'} hbefore => ?_
      exact Prod.Lex.right p.1 hbefore
    · refine hordered.imp fun {p q} hbefore p' hp' q' hq' => ?_
      obtain ⟨i, -, rfl⟩ := List.mem_map.1 hp'
      obtain ⟨j, -, rfl⟩ := List.mem_map.1 hq'
      exact Prod.Lex.left _ _ hbefore
  · simp only [List.mem_flatMap, List.mem_map]
    constructor
    · rintro ⟨p, hp, q, hq, heq⟩
      cases heq
      exact ⟨p.2, (hmem _ _).1 hp, (hmem' p.2 (hin p hp) _ _).1 hq⟩
    · rintro ⟨a, ha, hb⟩
      have hp := (hmem _ _).2 ha
      exact ⟨(place.1, a), hp, (place.2, b), (hmem' a (hin _ hp) _ _).2 hb, rfl⟩
  · rw [List.map_flatMap, List.flatMap_map]
    refine List.flatMap_congr fun p hp => ?_
    rw [List.map_map, ← hlist p.2 (hin p hp)]
    rfl

theorem entries_flatMap
    {κ : Type} {before' : κ → κ → Prop}
    {f : String × α → List β} {holds' : String × α → κ → β → Prop}
    (table : NameTable α) (hentry : ∀ entry, Enumerates before' (holds' entry) (f entry)) :
    Enumerates (Prod.Lex (· < ·) before')
      (fun place b => ∃ value, table.get? place.1 = some value ∧
        holds' (place.1, value) place.2 b)
      (table.entries.flatMap f) := by
  refine ((entries table).flatMap fun entry _ => hentry entry).congr fun place b => ?_
  constructor
  · rintro ⟨⟨name, value⟩, ⟨rfl, hvalue⟩, hholds⟩
    exact ⟨value, hvalue, hholds⟩
  · rintro ⟨value, hvalue, hholds⟩
    exact ⟨(place.1, value), ⟨rfl, hvalue⟩, hholds⟩

end Build

end Enumerates

/-- Places that follow each other in a nested order differ. -/
theorem ne_of_lex
    {ι κ : Type*} {before : ι → ι → Prop} {before' : κ → κ → Prop} {p q : ι × κ}
    (h : Prod.Lex before before' p q) (hne : ∀ i j, before i j → i ≠ j)
    (hne' : ∀ i j, before' i j → i ≠ j) : p ≠ q := by
  rintro rfl
  cases h with
  | left _ _ h => exact hne _ _ h rfl
  | right _ h => exact hne' _ _ h rfl

end CloudTemplate
