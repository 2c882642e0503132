import Mathlib.Logic.Relation
import CloudTemplate.Proofs.Registry
import CloudTemplate.Proofs.Registry.Indexes

/-!
# Units that are loaded side by side

Units register their resources through one registry, each unit in its own order.
A call is one step, and whose turn it is is open (`Loading.Step`), so there are
many ways to load the same units; loading them one after the other is one of
them (`Loading.reaches_registerAll`).

Main statement: where units agree on the names that they share, all ways end
with the same registry (`Loading.registry_eq_registerAll`).  On the way there,
what is registered and what is still to be called make up the union of the units
(`Loading.Towards`); each step keeps that.
-/

namespace CloudTemplate

open Registry Relation

namespace DeclarationUnit

/-- The calls by which a unit registers its resources. -/
def calls (u : DeclarationUnit) : List Call :=
  u.resources.map fun entry => .register entry.1 ⟨u.name, entry.1, entry.2⟩ none

theorem register_eq_performAll (registry : Registry) (u : DeclarationUnit) :
    register registry u = registry.performAll u.calls := by
  rw [performAll, calls, List.foldl_map]
  rfl

/-- What two units have under the same name is the same declaration. -/
def Agree (units : List DeclarationUnit) : Prop :=
  ∀ u ∈ units, ∀ u' ∈ units, ∀ entry ∈ u.resources, ∀ entry' ∈ u'.resources,
    entry.1 = entry'.1 → u.name = u'.name ∧ entry.2 = entry'.2

theorem consistent_registerAll (units : List DeclarationUnit) :
    (registerAll .empty units).Consistent := by
  suffices h : ∀ registry : Registry, registry.Consistent →
      (registerAll registry units).Consistent from h .empty consistent_empty
  induction units with
  | nil => exact fun _ h => h
  | cons u rest ih =>
      intro registry h
      exact ih _ (register_eq_performAll registry u ▸ h.performAll u.calls)

/-- In the union of the units, every name has a declaration of one of them. -/
theorem exists_of_get?_registerAll
    {units : List DeclarationUnit} {name : String} {registration : Registration}
    (h : (registerAll .empty units).byName.get? name = some registration) :
    ∃ u ∈ units, ∃ entry ∈ u.resources,
      entry.1 = name ∧ registration = ⟨⟨u.name, entry.1, entry.2⟩, entry.2.typeName⟩ := by
  rw [byName_registerAll] at h
  obtain ⟨table, htable, hget⟩ := NameTable.exists_of_get?_unionAll h
  obtain ⟨u, hu, rfl⟩ := List.mem_map.1 htable
  obtain ⟨entry, hentry, heq⟩ := List.mem_map.1 (NameTable.mem_of_get?_ofList hget)
  cases heq
  exact ⟨u, hu, entry, hentry, rfl, rfl⟩

/-- Where units agree, the union has the declarations of all of them. -/
theorem get?_registerAll_of_agree
    {units : List DeclarationUnit} (hagree : Agree units) {u : DeclarationUnit} (hu : u ∈ units)
    {entry : String × Resource} (hentry : entry ∈ u.resources) :
    (registerAll .empty units).byName.get? entry.1 =
      some ⟨⟨u.name, entry.1, entry.2⟩, entry.2.typeName⟩ := by
  have hmem : entry.1 ∈ (registerAll .empty units).byName.names := by
    rw [byName_registerAll, NameTable.mem_names_unionAll]
    refine ⟨_, List.mem_map_of_mem hu, NameTable.mem_names_ofList.2 ?_⟩
    exact Entries.mem_names_iff.2 ⟨_, List.mem_map_of_mem hentry⟩
  obtain ⟨registration, hget⟩ := NameTable.mem_names_iff_get?.1 hmem
  obtain ⟨u', hu', entry', hentry', hname, rfl⟩ := exists_of_get?_registerAll hget
  obtain ⟨hunit, hresource⟩ := hagree u hu u' hu' entry hentry entry' hentry' hname.symm
  rw [hget, hunit, hresource, hname]

end DeclarationUnit

/-- A load under way: the registry, and the calls that each unit has still to
make. -/
structure Loading where
  registry : Registry
  pending : List (List Call)

namespace Loading

/-- One of the units makes its next call. -/
inductive Step : Loading → Loading → Prop
  | call (registry : Registry) (before : List (List Call)) (call : Call) (rest : List Call)
      (after : List (List Call)) :
      Step ⟨registry, before ++ (call :: rest) :: after⟩
        ⟨(registry.perform call).2, before ++ rest :: after⟩

/-- The start of a load into a new registry. -/
def start (units : List DeclarationUnit) : Loading :=
  ⟨.empty, units.map DeclarationUnit.calls⟩

/-- All units made all of their calls. -/
def Finished (l : Loading) : Prop :=
  ∀ calls ∈ l.pending, calls = []

/-- There is a way to load the units that ends here. -/
def Ends (units : List DeclarationUnit) (l : Loading) : Prop :=
  ReflTransGen Step (start units) l ∧ l.Finished

section Sequential

variable {registry : Registry} {before after : List (List Call)}

/-- A unit may make all of its calls before it is another one's turn. -/
theorem reaches_performAll (calls : List Call) :
    ReflTransGen Step ⟨registry, before ++ calls :: after⟩
      ⟨registry.performAll calls, before ++ [] :: after⟩ := by
  induction calls generalizing registry with
  | nil => exact .refl
  | cons call rest ih => exact .head (.call registry before call rest after) ih

/-- Loading the units one after the other is a way to load them. -/
theorem reaches_registerAll (units : List DeclarationUnit) :
    ReflTransGen Step (start units)
      ⟨DeclarationUnit.registerAll .empty units, units.map fun _ => []⟩ := by
  suffices h : ∀ (registry : Registry) (before : List (List Call)),
      ReflTransGen Step ⟨registry, before ++ units.map DeclarationUnit.calls⟩
        ⟨DeclarationUnit.registerAll registry units, before ++ units.map fun _ => []⟩ from
    h .empty []
  induction units with
  | nil => exact fun _ _ => .refl
  | cons u rest ih =>
      intro registry before
      have hrest := ih (DeclarationUnit.register registry u) (before ++ [[]])
      rw [List.append_assoc, List.append_assoc] at hrest
      refine .trans ?_ hrest
      rw [DeclarationUnit.register_eq_performAll]
      exact reaches_performAll u.calls

theorem ends_registerAll (units : List DeclarationUnit) :
    Ends units ⟨DeclarationUnit.registerAll .empty units, units.map fun _ => []⟩ := by
  refine ⟨reaches_registerAll units, fun calls hcalls => ?_⟩
  obtain ⟨u, -, rfl⟩ := List.mem_map.1 hcalls
  rfl

end Sequential

section Interleaved

/-- What is registered and what is still to be called make up a union. -/
structure Towards (union : NameTable Registration) (l : Loading) : Prop where
  consistent : l.registry.Consistent
  pending : ∀ call ∈ l.pending.flatten, ∃ name declaration,
    call = .register name declaration none ∧
      union.get? name = some ⟨declaration, declaration.resource.typeName⟩
  sound : ∀ name registration, l.registry.byName.get? name = some registration →
    union.get? name = some registration
  complete : ∀ name registration, union.get? name = some registration →
    l.registry.byName.get? name = some registration ∨
      .register name registration.declaration none ∈ l.pending.flatten

variable {union : NameTable Registration} {l l' : Loading} {units : List DeclarationUnit}

theorem towards_start
    (hagree : DeclarationUnit.Agree units) :
    Towards (DeclarationUnit.registerAll .empty units).byName (start units) where
  consistent := consistent_empty
  pending := by
    intro call hcall
    obtain ⟨calls, hcalls, hmem⟩ := List.mem_flatten.1 hcall
    obtain ⟨u, hu, rfl⟩ := List.mem_map.1 hcalls
    obtain ⟨entry, hentry, rfl⟩ := List.mem_map.1 hmem
    exact ⟨_, _, rfl, DeclarationUnit.get?_registerAll_of_agree hagree hu hentry⟩
  sound := fun _ _ h => by cases h
  complete := by
    intro name registration hget
    obtain ⟨u, hu, entry, hentry, rfl, rfl⟩ := DeclarationUnit.exists_of_get?_registerAll hget
    exact Or.inr (List.mem_flatten.2
      ⟨u.calls, List.mem_map_of_mem hu, List.mem_map_of_mem hentry⟩)

/-- A call moves its declaration from what is to be called to what is
registered. -/
theorem Towards.step
    (h : Towards union l) (hstep : Step l l') : Towards union l' := by
  obtain ⟨registry, before, call, rest, after⟩ := hstep
  have hmem : ∀ other, other ∈ (before ++ (call :: rest) :: after).flatten ↔
      other = call ∨ other ∈ (before ++ rest :: after).flatten := fun other => by
    simp [or_left_comm]
  obtain ⟨name, declaration, rfl, hunion⟩ := h.pending call ((hmem call).2 (Or.inl rfl))
  have hget := get?_byName_register registry name declaration none
  refine ⟨h.consistent.perform _, fun other hother => h.pending other ((hmem other).2 (Or.inr hother)),
    fun other registration hother => ?_, fun other registration hother => ?_⟩
  · replace hother := (hget other).symm.trans hother
    split at hother
    · next heq =>
      cases hother
      exact heq ▸ hunion
    · exact h.sound other registration hother
  · show (registry.register name declaration none).byName.get? other = some registration ∨ _
    rw [hget]
    by_cases heq : name = other
    · subst heq
      rw [hother] at hunion
      exact Or.inl ((if_pos rfl).trans hunion.symm)
    · rw [if_neg heq]
      refine (h.complete other registration hother).imp_right fun hpending => ?_
      refine ((hmem _).1 hpending).resolve_left fun hcall => ?_
      exact heq (Call.register.inj hcall).1.symm

theorem Towards.reaches
    (h : Towards union l) (hrun : ReflTransGen Step l l') : Towards union l' := by
  induction hrun with
  | refl => exact h
  | tail _ hstep ih => exact ih.step hstep

/-- When nothing is left to be called, the union is registered. -/
theorem Towards.byName_eq
    (h : Towards union l) (hfinished : l.Finished) : l.registry.byName = union := by
  refine NameTable.ext_get? fun name => Option.ext fun registration => ?_
  refine ⟨h.sound name registration, fun hget => ?_⟩
  refine (h.complete name registration hget).resolve_right fun hpending => ?_
  obtain ⟨calls, hcalls, hcall⟩ := List.mem_flatten.1 hpending
  rw [hfinished calls hcalls] at hcall
  cases hcall

/-- **All ways to load units that agree end with the same registry.** -/
theorem registry_eq_registerAll
    (hagree : DeclarationUnit.Agree units) (hends : Ends units l) :
    l.registry = DeclarationUnit.registerAll .empty units := by
  have htowards := (towards_start hagree).reaches hends.1
  exact htowards.consistent.ext (DeclarationUnit.consistent_registerAll units)
    (htowards.byName_eq hends.2)

end Interleaved

end Loading
end CloudTemplate
