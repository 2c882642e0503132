import Mathlib.Data.Set.Card
import CloudTemplate.Proofs.NameTable
import CloudTemplate.Registry.Basic

/-!
# The two indexes of a registry

A registry finds registrations by their names, and names by the types that they
are registered with.  The second index can be read off the first one
(`Registry.Consistent`): a name is listed under the type of its registration and
under no other, and no type is listed without a name.  Every call keeps it so
(`Registry.Consistent.perform`), also where a name moves from one type to
another one, and the first index alone determines the registry
(`Registry.Consistent.ext`).

Main statement: after any calls on a new registry, what is found under a name
was registered last under it, since the registry was last cleared
(`Registry.performAll_refines_latest`).
-/

namespace CloudTemplate
namespace Registry

/-- The index by types has the names of the other index, each under the type
that it is registered with. -/
structure Consistent (registry : Registry) : Prop where
  mem_iff : ∀ typeName name, name ∈ registry.byType.namesUnder typeName ↔
    ∃ registration, registry.byName.get? name = some registration ∧
      registration.typeName = typeName
  nonempty : registry.byType.SetsNonempty

variable {registry : Registry} {name typeName : String}

section Steps

theorem mem_namesUnder_enlist
    {byType : NameTable NameSet} {key other : String} :
    other ∈ (enlist byType typeName name).namesUnder key ↔
      key = typeName ∧ other = name ∨ other ∈ byType.namesUnder key :=
  NameTable.mem_namesUnder_insert_add

theorem mem_namesUnder_unlist
    {byType : NameTable NameSet} {key other : String} :
    other ∈ (unlist byType typeName name).namesUnder key ↔
      other ∈ byType.namesUnder key ∧ ¬ (key = typeName ∧ other = name) := by
  unfold unlist
  cases hnames : byType.get? typeName with
  | none =>
      refine iff_self_and.2 fun hother h => ?_
      obtain ⟨found, hfound, -⟩ := NameTable.mem_namesUnder_iff.1 hother
      rw [h.1, hnames] at hfound
      cases hfound
  | some names =>
      have hleft : ∀ other, other ∈ (names.erase name).names ↔ other ∈ names.names ∧ other ≠ name :=
        fun other => NameTable.mem_names_erase
      dsimp only
      by_cases hkey : key = typeName
      · subst hkey
        rw [NameTable.namesUnder_of_get? hnames, and_iff_right rfl, ← hleft]
        split
        · next hempty =>
          rw [(NameTable.isEmpty_iff _).1 hempty, NameTable.mem_namesUnder_iff,
            NameTable.get?_erase, if_pos rfl]
          simp
        · rw [NameTable.mem_namesUnder_iff, NameTable.get?_insert, if_pos rfl]
          simp
      · rw [NameTable.mem_namesUnder_iff, NameTable.mem_namesUnder_iff]
        split
        · simp [NameTable.get?_erase, hkey]
        · simp [NameTable.get?_insert, hkey, Ne.symm hkey]

theorem setsNonempty_unlist
    {byType : NameTable NameSet} (h : byType.SetsNonempty) :
    (unlist byType typeName name).SetsNonempty := by
  unfold unlist
  cases byType.get? typeName with
  | none => exact h
  | some names =>
      dsimp only
      intro key found hfound
      split at hfound
      · rw [NameTable.get?_erase] at hfound
        split at hfound
        · cases hfound
        · exact h key found hfound
      · next hleft =>
        rw [NameTable.get?_insert] at hfound
        split at hfound
        · cases hfound
          intro hnames
          exact hleft (by simpa [NameTable.names, Entries.names, NameTable.isEmpty] using hnames)
        · exact h key found hfound

theorem consistent_empty : empty.Consistent where
  mem_iff := fun typeName name => by simp [empty, NameTable.namesUnder]
  nonempty := NameTable.setsNonempty_empty

/-- The index by types, less a name. -/
def unlisted (registry : Registry) (name : String) : NameTable NameSet :=
  match registry.byName.get? name with
  | none => registry.byType
  | some old => unlist registry.byType old.typeName name

theorem byType_register (registry : Registry) (name : String) (declaration : Declaration)
    (typeName : Option String) :
    (registry.register name declaration typeName).byType =
      enlist (registry.unlisted name) (typeName.getD declaration.resource.typeName) name := rfl

theorem get?_byName_register (registry : Registry) (name : String) (declaration : Declaration)
    (typeName : Option String) (other : String) :
    (registry.register name declaration typeName).byName.get? other =
      if name = other then
        some ⟨declaration, typeName.getD declaration.resource.typeName⟩
      else registry.byName.get? other :=
  NameTable.get?_insert ..

theorem Consistent.setsNonempty_unlisted
    (h : registry.Consistent) (name : String) : (registry.unlisted name).SetsNonempty := by
  unfold unlisted
  cases registry.byName.get? name with
  | none => exact h.nonempty
  | some old => exact setsNonempty_unlist h.nonempty

/-- The name is taken from the one type that it was under. -/
theorem Consistent.mem_namesUnder_unlisted
    (h : registry.Consistent) {key other : String} :
    other ∈ (registry.unlisted name).namesUnder key ↔
      other ≠ name ∧ other ∈ registry.byType.namesUnder key := by
  unfold unlisted
  cases hold : registry.byName.get? name with
  | none =>
      refine (and_iff_right_of_imp ?_).symm
      rintro hother rfl
      obtain ⟨registration, hfound, -⟩ := (h.mem_iff key other).1 hother
      rw [hold] at hfound
      cases hfound
  | some old =>
      rw [mem_namesUnder_unlist, and_comm (a := other ≠ name)]
      refine and_congr_right fun hother => not_congr (and_iff_right_of_imp ?_)
      rintro rfl
      obtain ⟨registration, hfound, htype⟩ := (h.mem_iff key other).1 hother
      rw [hold] at hfound
      cases hfound
      exact htype.symm

/-- Registering a name puts it under its type, and takes it from the type that
it was registered with before. -/
theorem Consistent.register
    (h : registry.Consistent) (name : String) (declaration : Declaration)
    (typeName : Option String) : (registry.register name declaration typeName).Consistent := by
  refine ⟨fun key other => ?_, (h.setsNonempty_unlisted name).insert_add _⟩
  rw [byType_register, get?_byName_register, mem_namesUnder_enlist, h.mem_namesUnder_unlisted,
    h.mem_iff]
  by_cases hname : name = other
  · simp [hname, eq_comm]
  · simp [hname, Ne.symm hname]

/-- A registration leaves the other names as they are, in both indexes. -/
theorem Consistent.register_of_ne
    (h : registry.Consistent) (declaration : Declaration) (type : Option String)
    {other : String} (hother : other ≠ name) :
    (registry.register name declaration type).byName.get? other = registry.byName.get? other ∧
      ∀ typeName, other ∈ (registry.register name declaration type).byType.namesUnder typeName ↔
        other ∈ registry.byType.namesUnder typeName := by
  have hsame := get?_byName_register registry name declaration type other
  rw [if_neg hother.symm] at hsame
  refine ⟨hsame, fun typeName => ?_⟩
  rw [(h.register name declaration type).mem_iff, h.mem_iff, hsame]

theorem Consistent.perform
    (h : registry.Consistent) (call : Call) : (registry.perform call).2.Consistent := by
  cases call with
  | register name declaration typeName => exact h.register name declaration typeName
  | clear => exact consistent_empty

theorem Consistent.performAll
    (h : registry.Consistent) (calls : List Call) : (registry.performAll calls).Consistent := by
  induction calls generalizing registry with
  | nil => exact h
  | cons call rest ih => exact ih (h.perform call)

/-- What is registered under the names determines both indexes. -/
theorem Consistent.ext
    {registry' : Registry} (h : registry.Consistent) (h' : registry'.Consistent)
    (hbyName : registry.byName = registry'.byName) : registry = registry' := by
  have hbyType : registry.byType = registry'.byType :=
    NameTable.ext_namesUnder h.nonempty h'.nonempty fun key name => by
      rw [h.mem_iff, h'.mem_iff, hbyName]
  obtain ⟨byName, byType⟩ := registry
  cases hbyName
  cases hbyType
  rfl

end Steps

section Listings

theorem mem_declarations_iff
    {declaration : Declaration} :
    (name, declaration) ∈ registry.declarations ↔ registry.get? name = some declaration := by
  rw [declarations, List.mem_map, get?, Option.map_eq_some_iff]
  simp only [Prod.mk.injEq, Prod.exists, NameTable.get?_eq_some_iff]
  constructor
  · rintro ⟨_, registration, hmem, rfl, rfl⟩
    exact ⟨registration, hmem, rfl⟩
  · rintro ⟨registration, hmem, rfl⟩
    exact ⟨name, registration, hmem, rfl, rfl⟩

theorem names_declarations (registry : Registry) :
    Entries.names registry.declarations = registry.byName.names := by
  rw [declarations, Entries.names, List.map_map]
  rfl

theorem pairwise_names_declarations (registry : Registry) :
    (Entries.names registry.declarations).Pairwise (· < ·) := by
  rw [names_declarations]
  exact registry.byName.pairwise_names

theorem nodup_declarations (registry : Registry) : registry.declarations.Nodup :=
  List.Nodup.of_map Prod.fst ((pairwise_names_declarations registry).imp ne_of_lt)

theorem mem_withType_iff
    {declaration : Declaration} :
    (name, declaration) ∈ registry.withType typeName ↔
      name ∈ registry.byType.namesUnder typeName ∧ registry.get? name = some declaration := by
  show (name, declaration) ∈ (registry.byType.namesUnder typeName).filterMap _ ↔ _
  rw [List.mem_filterMap]
  simp only [Option.map_eq_some_iff, Prod.mk.injEq]
  constructor
  · rintro ⟨_, hmem, _, hget, rfl, rfl⟩
    exact ⟨hmem, hget⟩
  · rintro ⟨hmem, hget⟩
    exact ⟨name, hmem, declaration, hget, rfl, rfl⟩

theorem pairwise_namesUnder (byType : NameTable NameSet) (key : String) :
    (byType.namesUnder key).Pairwise (· < ·) := by
  unfold NameTable.namesUnder
  cases byType.get? key with
  | none => exact List.Pairwise.nil
  | some names => exact names.pairwise_names

/-- The declarations with a type stand in the order of their names. -/
theorem pairwise_withType (registry : Registry) (typeName : String) :
    (registry.withType typeName).Pairwise fun a b => a.1 < b.1 := by
  refine (pairwise_namesUnder registry.byType typeName).filterMap _ ?_
  intro name name' hlt entry hentry entry' hentry'
  obtain ⟨declaration, -, rfl⟩ := Option.map_eq_some_iff.1 hentry
  obtain ⟨declaration', -, rfl⟩ := Option.map_eq_some_iff.1 hentry'
  exact hlt

/-- A declaration is listed with one type, and no declaration is left out. -/
theorem Consistent.flatMap_withType_perm
    (h : registry.Consistent) :
    (registry.types.flatMap registry.withType).Perm registry.declarations := by
  have hnodup : (registry.types.flatMap registry.withType).Nodup := by
    refine List.nodup_flatMap.2 ⟨fun typeName _ =>
      (pairwise_withType registry typeName).imp fun hlt heq => (ne_of_lt hlt) (congrArg _ heq), ?_⟩
    refine registry.byType.nodup_names.imp fun hne => ?_
    rintro ⟨name, declaration⟩ hmem hmem'
    obtain ⟨registration, hget, rfl⟩ := (h.mem_iff _ name).1 (mem_withType_iff.1 hmem).1
    obtain ⟨registration', hget', rfl⟩ := (h.mem_iff _ name).1 (mem_withType_iff.1 hmem').1
    rw [hget] at hget'
    cases hget'
    exact hne rfl
  refine (List.perm_ext_iff_of_nodup hnodup (nodup_declarations registry)).2 ?_
  rintro ⟨name, declaration⟩
  rw [List.mem_flatMap, mem_declarations_iff]
  constructor
  · rintro ⟨typeName, -, hmem⟩
    exact (mem_withType_iff.1 hmem).2
  · intro hget
    obtain ⟨registration, hregistration, -⟩ := Option.map_eq_some_iff.1 hget
    have hlisted := (h.mem_iff registration.typeName name).2 ⟨registration, hregistration, rfl⟩
    exact ⟨registration.typeName, h.nonempty.mem_names_iff.2 ⟨name, hlisted⟩,
      mem_withType_iff.2 ⟨hlisted, hget⟩⟩

/-- The registry answers as a map from names to registrations does. -/
structure Refines (registry : Registry) (held : String → Option Registration) : Prop where
  byName : ∀ name, registry.byName.get? name = held name
  /-- A name is under the type of its registration, and under no other. -/
  byType : ∀ typeName name,
    (∃ names, registry.byType.get? typeName = some names ∧ name ∈ names.names) ↔
      ∃ registration, held name = some registration ∧ registration.typeName = typeName
  nonempty : ∀ typeName names, registry.byType.get? typeName = some names → names.names ≠ []
  mem_declarations : ∀ name declaration, (name, declaration) ∈ registry.declarations ↔
    (held name).map Registration.declaration = some declaration
  ascending : (Entries.names registry.declarations).Pairwise (· < ·)
  /-- By types, all declarations are listed, each once. -/
  partition : (registry.types.flatMap registry.withType).Perm registry.declarations
  get?_eq : ∀ name, registry.get? name = (held name).map Registration.declaration
  contains_eq : ∀ name, registry.contains name = (held name).isSome
  size_eq : registry.size = Set.ncard {name | (held name).isSome = true}

theorem Consistent.refines
    {held : String → Option Registration} (h : registry.Consistent)
    (hheld : ∀ name, registry.byName.get? name = held name) : registry.Refines held := by
  obtain rfl : registry.byName.get? = held := funext hheld
  have hisSome : ∀ name, name ∈ registry.byName.names ↔
      (registry.byName.get? name).isSome = true := fun name => by
    rw [NameTable.mem_names_iff_get?, Option.isSome_iff_exists]
  exact {
    byName := fun _ => rfl
    byType := fun typeName name => by rw [← NameTable.mem_namesUnder_iff, h.mem_iff]
    nonempty := h.nonempty
    mem_declarations := fun name declaration => mem_declarations_iff
    ascending := pairwise_names_declarations registry
    partition := h.flatMap_withType_perm
    get?_eq := fun _ => rfl
    contains_eq := fun name => by
      rw [Bool.eq_iff_iff, ← hisSome]
      exact NameTable.contains_iff
    size_eq := by
      have hset : {name | (registry.byName.get? name).isSome = true} =
          ↑registry.byName.names.toFinset := by
        ext name
        simp [hisSome]
      rw [hset, Set.ncard_coe_finset, List.toFinset_card_of_nodup registry.byName.nodup_names,
        NameTable.length_names]
      rfl }

end Listings

section Latest

/-- What was registered under a name, by calls of which the last one comes
first. -/
def lastUnder (name : String) : List Call → Option Registration
  | [] => none
  | .clear :: _ => none
  | .register other declaration typeName :: earlier =>
      if other = name then some ⟨declaration, typeName.getD declaration.resource.typeName⟩
      else lastUnder name earlier

/-- The last registration of a name by some calls, unless all was cleared after
it. -/
def latest (calls : List Call) (name : String) : Option Registration :=
  lastUnder name calls.reverse

theorem get?_byName_perform
    (call : Call) (earlier : List Call) (h : registry.byName.get? name = lastUnder name earlier) :
    (registry.perform call).2.byName.get? name = lastUnder name (call :: earlier) := by
  cases call with
  | register other declaration typeName =>
      rw [perform, get?_byName_register, h, lastUnder]
  | clear => rfl

theorem get?_byName_performAll (calls : List Call) (name : String) :
    (empty.performAll calls).byName.get? name = latest calls name := by
  induction calls using List.reverseRecOn with
  | nil => rfl
  | append_singleton calls call ih =>
      rw [performAll, List.foldl_append, latest, List.reverse_append]
      exact get?_byName_perform call calls.reverse ih

/-- **A registry finds what was registered last.**  After any calls on a new
registry, both indexes agree with the one map from a name to its last
registration.  A further registration is answered with what it replaces, and
what is found under other names, and their types, stay as they are. -/
theorem performAll_refines_latest (calls : List Call) :
    let registry := empty.performAll calls
    registry.Refines (latest calls) ∧
      ∀ name declaration type,
        let answered := registry.perform (.register name declaration type)
        answered.1 = (latest calls name).map Registration.declaration ∧
          ∀ other, other ≠ name →
            answered.2.byName.get? other = registry.byName.get? other ∧
              ∀ typeName, other ∈ answered.2.byType.namesUnder typeName ↔
                other ∈ registry.byType.namesUnder typeName := by
  intro registry
  have hconsistent : registry.Consistent := consistent_empty.performAll calls
  have hlatest : ∀ name, registry.byName.get? name = latest calls name :=
    get?_byName_performAll calls
  refine ⟨hconsistent.refines hlatest, fun name declaration type => ⟨?_, fun other hother => ?_⟩⟩
  · exact congrArg (Option.map Registration.declaration) (hlatest name)
  · exact hconsistent.register_of_ne declaration type hother

end Latest

end Registry
end CloudTemplate
