import CloudTemplate.Proofs.Registry.Snapshot
import CloudTemplate.Registry.Unit

/-!
# What a registry holds

Units are registered one after the other, so the registry holds the union of
what they declare (`DeclarationUnit.byName_registerAll`).

A snapshot is refused only where two names hold the same logical id.  When every
name is the logical id itself, there are no two such names, and the snapshot has
the registered resources under their names (`Registry.snapshot_of_keepsIds`); so
it is for units (`DeclarationUnit.snapshot_registerAll`).
-/

namespace CloudTemplate

namespace Registry

/-- Every declaration is registered under its logical id. -/
def KeepsIds (registry : Registry) : Prop :=
  ∀ name registration, registry.byName.get? name = some registration →
    registration.declaration.logicalId = name

variable {registry : Registry}

theorem eq_of_mem_holders
    (h : registry.KeepsIds) {name id : String} (hname : name ∈ registry.holders id) :
    name = id := by
  obtain ⟨declaration, hget, rfl⟩ := mem_holders_iff.1 hname
  obtain ⟨registration, hregistration, rfl⟩ := Option.map_eq_some_iff.1 hget
  exact (h name registration hregistration).symm

/-- Where names are logical ids, the snapshot has what is registered. -/
theorem snapshot_of_keepsIds
    (h : registry.KeepsIds) :
    registry.snapshot =
      .ok (registry.byName.map fun registration => registration.declaration.resource) := by
  have hentries : (registry.declarations.map fun entry => (entry.2.logicalId, entry.2.resource)) =
      (registry.byName.map fun registration => registration.declaration.resource).entries := by
    simp only [declarations, List.map_map, NameTable.map, Entries.mapValues]
    refine List.map_congr_left fun entry hentry => ?_
    exact congrArg (·, entry.2.declaration.resource)
      (h entry.1 entry.2 (NameTable.get?_eq_some_iff.2 hentry))
  rcases registry.snapshot_cases with ⟨id, -, hid, -⟩ | ⟨hsnapshot, -⟩
  · obtain ⟨name, hname, name', hname', hne⟩ := one_lt_length_holders_iff.1 hid
    exact absurd ((eq_of_mem_holders h hname).trans (eq_of_mem_holders h hname').symm) hne
  · rw [hsnapshot, hentries, NameTable.ofList_entries]

end Registry

namespace DeclarationUnit

/-- What a unit registers. -/
def registrations (u : DeclarationUnit) : NameTable Registration :=
  .ofList <| u.resources.map fun entry =>
    (entry.1, ⟨⟨u.name, entry.1, entry.2⟩, entry.2.typeName⟩)

theorem byName_register (registry : Registry) (u : DeclarationUnit) :
    (register registry u).byName = registry.byName.union u.registrations := by
  rw [registrations, NameTable.union_ofList, List.foldl_map]
  exact (List.foldl_hom Registry.byName fun _ _ => rfl).symm

theorem byName_registerAll (units : List DeclarationUnit) :
    (registerAll .empty units).byName = .unionAll (units.map registrations) := by
  rw [NameTable.unionAll, List.foldl_map]
  exact (List.foldl_hom Registry.byName fun registry u => (byName_register registry u).symm).symm

theorem keepsIds_registerAll (units : List DeclarationUnit) :
    (registerAll .empty units).KeepsIds := by
  intro name registration h
  rw [byName_registerAll] at h
  obtain ⟨table, htable, hname⟩ := NameTable.exists_of_get?_unionAll h
  obtain ⟨u, -, rfl⟩ := List.mem_map.1 htable
  obtain ⟨entry, -, heq⟩ := List.mem_map.1 (NameTable.mem_of_get?_ofList hname)
  cases heq
  rfl

/-- The snapshot of some units has their resources; of equal ids the last one
counts. -/
theorem snapshot_registerAll (units : List DeclarationUnit) :
    (registerAll .empty units).snapshot =
      .ok (.unionAll (units.map fun u => .ofList u.resources)) := by
  rw [Registry.snapshot_of_keepsIds (keepsIds_registerAll units), byName_registerAll,
    NameTable.map_unionAll, List.map_map]
  refine congrArg (fun tables => Except.ok (NameTable.unionAll tables))
    (List.map_congr_left fun u _ => ?_)
  simp only [Function.comp_apply, registrations, NameTable.map_ofList, Entries.mapValues,
    List.map_map]
  exact congrArg NameTable.ofList (List.map_id _)

end DeclarationUnit
end CloudTemplate
