import CloudTemplate.Proofs.Registry.Indexes
import CloudTemplate.Proofs.Sorting

/-!
# Snapshots of registries

A registry is keyed by the names of declarations, a snapshot by their logical
ids.  Registering a name again may bring a logical id under two names, or free
it, so whether there is a snapshot depends on what was registered last under
each name (`Registry.Carries`).

Main statement: a snapshot is refused just where two names carry the same logical
id, for the least such id and with the names that carry it; otherwise no
registered resource is left out.  Asking for snapshots in between makes no
difference to the registry (`Registry.snapshot_refuses_shared_ids`).
-/

namespace CloudTemplate
namespace Registry

/-- After the calls, the name carries the resource with the logical id. -/
def Carries (calls : List Call) (name id : String) (r : Resource) : Prop :=
  ∃ registration, latest calls name = some registration ∧
    registration.declaration.logicalId = id ∧ registration.declaration.resource = r

/-- After the calls, two names carry the logical id. -/
def Shared (calls : List Call) (id : String) : Prop :=
  ∃ name name' r r', name ≠ name' ∧ Carries calls name id r ∧ Carries calls name' id r'

/-- What a registry is asked for: to carry out a call, or for a snapshot. -/
inductive Request where
  | perform (call : Call)
  | snapshot

/-- The call to carry out, if there is one. -/
def Request.call? : Request → Option Call
  | .perform call => some call
  | .snapshot => none

/-- Meet a request.  Beside the registry stand the snapshots that were handed
out, in their order. -/
def serve (served : List (Except Error ResourceSet) × Registry) :
    Request → List (Except Error ResourceSet) × Registry
  | .perform call => (served.1, (served.2.perform call).2)
  | .snapshot => (served.1 ++ [served.2.snapshot], served.2)

/-- Meet some requests to a new registry, one after the other. -/
def serveAll (requests : List Request) : List (Except Error ResourceSet) × Registry :=
  requests.foldl serve ([], .empty)

variable {registry : Registry} {calls : List Call} {name id : String}

section Holders

theorem mem_holders_iff :
    name ∈ registry.holders id ↔
      ∃ declaration, registry.get? name = some declaration ∧ declaration.logicalId = id := by
  rw [holders, Entries.mem_names_iff]
  simp only [List.mem_filter, decide_eq_true_eq, mem_declarations_iff]

theorem pairwise_holders (registry : Registry) (id : String) :
    (registry.holders id).Pairwise (· < ·) :=
  (pairwise_names_declarations registry).sublist (List.filter_sublist.map Prod.fst)

theorem mem_logicalIds_iff :
    id ∈ registry.logicalIds ↔ ∃ name, name ∈ registry.holders id := by
  rw [logicalIds, NameSet.mem_names_ofList, List.mem_map]
  simp only [mem_holders_iff, Prod.exists, mem_declarations_iff]

/-- An id is reported when it has two holders. -/
theorem one_lt_length_holders_iff :
    1 < (registry.holders id).length ↔
      ∃ name ∈ registry.holders id, ∃ name' ∈ registry.holders id, name ≠ name' := by
  have hordered := pairwise_holders registry id
  match hholders : registry.holders id with
  | [] => simp
  | [name] => simp
  | first :: second :: rest =>
      rw [hholders] at hordered
      have hlt : first < second := (List.pairwise_cons.1 hordered).1 second (List.mem_cons_self ..)
      exact iff_of_true (by simp) ⟨first, by simp, second, by simp, ne_of_lt hlt⟩

/-- A snapshot is refused for the least id with two holders, and for nothing
else. -/
theorem snapshot_cases (registry : Registry) :
    (∃ id, registry.snapshot = .error (.duplicateLogicalId id (registry.holders id)) ∧
      1 < (registry.holders id).length ∧
      ∀ other, 1 < (registry.holders other).length → id ≤ other) ∨
    registry.snapshot =
        .ok (.ofList (registry.declarations.map fun entry =>
          (entry.2.logicalId, entry.2.resource))) ∧
      ∀ id, (registry.holders id).length ≤ 1 := by
  have hmem : ∀ id, 1 < (registry.holders id).length → id ∈ registry.logicalIds := fun id hid =>
    mem_logicalIds_iff.2 (List.exists_mem_of_length_pos (Nat.zero_lt_of_lt hid))
  unfold snapshot
  cases hfind : registry.logicalIds.find? fun id => 1 < (registry.holders id).length with
  | some id =>
      have hleast := key_le_of_find?_eq_some (fun id => id) (NameTable.pairwise_names _) hfind
      have hid := List.find?_some hfind
      refine Or.inl ⟨id, rfl, of_decide_eq_true hid, fun other hother => ?_⟩
      exact hleast other (hmem other hother) (decide_eq_true hother)
  | none =>
      refine Or.inr ⟨rfl, fun id => ?_⟩
      by_contra hid
      rw [not_le] at hid
      simpa [hid] using List.find?_eq_none.1 hfind id (hmem id hid)

end Holders

section Distinct

variable (h : ∀ id, (registry.holders id).length ≤ 1)
include h

/-- Without shared ids, the declarations are told apart by their ids. -/
theorem nodup_declared :
    (Entries.names (registry.declarations.map fun entry =>
      (entry.2.logicalId, entry.2.resource))).Nodup := by
  rw [Entries.names, List.map_map]
  refine List.Nodup.map_on ?_ (nodup_declarations registry)
  rintro ⟨name, declaration⟩ hentry ⟨name', declaration'⟩ hentry' hid
  have hget := mem_declarations_iff.1 hentry
  have hget' := mem_declarations_iff.1 hentry'
  have hname : name = name' := by
    by_contra hne
    refine absurd (h declaration.logicalId) (not_le.2 (one_lt_length_holders_iff.2 ?_))
    exact ⟨name, mem_holders_iff.2 ⟨declaration, hget, rfl⟩,
      name', mem_holders_iff.2 ⟨declaration', hget', hid.symm⟩, hne⟩
  subst hname
  rw [hget] at hget'
  cases hget'
  rfl

theorem size_declared :
    (NameTable.ofList (registry.declarations.map fun entry =>
      (entry.2.logicalId, entry.2.resource))).size = registry.size := by
  refine (Entries.sort_perm (nodup_declared h)).length_eq.trans ?_
  rw [List.length_map, declarations, List.length_map]
  rfl

theorem get?_declared_iff {r : Resource} :
    (NameTable.ofList (registry.declarations.map fun entry =>
      (entry.2.logicalId, entry.2.resource))).get? id = some r ↔
      ∃ name declaration, registry.get? name = some declaration ∧
        declaration.logicalId = id ∧ declaration.resource = r := by
  rw [NameTable.get?_ofList_eq_some_iff (nodup_declared h), List.mem_map]
  simp only [Prod.exists, Prod.mk.injEq, mem_declarations_iff]

end Distinct

section Runs

theorem carries_iff {r : Resource} :
    Carries calls name id r ↔
      ∃ declaration, (empty.performAll calls).get? name = some declaration ∧
        declaration.logicalId = id ∧ declaration.resource = r := by
  simp only [Carries, get?, get?_byName_performAll, Option.map_eq_some_iff]
  constructor
  · rintro ⟨registration, hlatest, hid, hr⟩
    exact ⟨registration.declaration, ⟨registration, hlatest, rfl⟩, hid, hr⟩
  · rintro ⟨_, ⟨registration, hlatest, rfl⟩, hid, hr⟩
    exact ⟨registration, hlatest, hid, hr⟩

theorem mem_holders_performAll_iff :
    name ∈ (empty.performAll calls).holders id ↔ ∃ r, Carries calls name id r := by
  simp only [mem_holders_iff, carries_iff]
  constructor
  · rintro ⟨declaration, hget, hid⟩
    exact ⟨declaration.resource, declaration, hget, hid, rfl⟩
  · rintro ⟨r, declaration, hget, hid, -⟩
    exact ⟨declaration, hget, hid⟩

theorem shared_iff :
    Shared calls id ↔ 1 < ((empty.performAll calls).holders id).length := by
  rw [one_lt_length_holders_iff]
  simp only [mem_holders_performAll_iff]
  constructor
  · rintro ⟨name, name', r, r', hne, hname, hname'⟩
    exact ⟨name, ⟨r, hname⟩, name', ⟨r', hname'⟩, hne⟩
  · rintro ⟨name, ⟨r, hname⟩, name', ⟨r', hname'⟩, hne⟩
    exact ⟨name, name', r, r', hne, hname, hname'⟩

/-- Snapshots leave the registry as its calls have made it. -/
theorem registry_serveAll (requests : List Request) :
    (serveAll requests).2 = empty.performAll (requests.filterMap Request.call?) := by
  induction requests using List.reverseRecOn with
  | nil => rfl
  | append_singleton requests request ih =>
      rw [serveAll, List.foldl_append, List.filterMap_append, performAll, List.foldl_append]
      cases request with
      | perform call => exact congrArg (fun registry => (registry.perform call).2) ih
      | snapshot => exact ih

/-- **A snapshot is refused for shared ids only, and leaves nothing out.**  After
any requests to a new registry, one more snapshot is an error when two names
carry the same logical id: it reports the least such id and the names that carry
it, ascending.  Otherwise it has as many entries as there are names, each
registered resource under its logical id.  The registry is as its calls have made
it, whatever snapshots were asked for. -/
theorem snapshot_refuses_shared_ids (requests : List Request) :
    let calls := requests.filterMap Request.call?
    let registry := (serveAll requests).2
    registry = empty.performAll calls ∧
      serveAll (requests ++ [.snapshot]) =
        ((serveAll requests).1 ++ [registry.snapshot], registry) ∧
      match registry.snapshot with
      | .ok resources =>
          (∀ id, ¬ Shared calls id) ∧ resources.size = registry.size ∧
            ∀ id r, resources.get? id = some r ↔ ∃ name, Carries calls name id r
      | .error e =>
          ∃ id names, e = .duplicateLogicalId id names ∧ Shared calls id ∧
            (∀ other, Shared calls other → id ≤ other) ∧
            names.Pairwise (· < ·) ∧ ∀ name, name ∈ names ↔ ∃ r, Carries calls name id r := by
  intro calls registry
  have hregistry : registry = empty.performAll calls := registry_serveAll requests
  refine ⟨hregistry, List.foldl_append, ?_⟩
  rcases registry.snapshot_cases with ⟨id, hsnapshot, hid, hleast⟩ | ⟨hsnapshot, hdistinct⟩
  · rw [hsnapshot]
    rw [hregistry] at hid hleast ⊢
    exact ⟨id, _, rfl, shared_iff.2 hid, fun other hother => hleast other (shared_iff.1 hother),
      pairwise_holders _ id, fun name => mem_holders_performAll_iff⟩
  · rw [hsnapshot]
    refine ⟨fun id hid => ?_, size_declared hdistinct, fun id r => ?_⟩
    · rw [hregistry] at hdistinct
      exact absurd (hdistinct id) (not_le.2 (shared_iff.1 hid))
    · rw [get?_declared_iff hdistinct]
      simp only [carries_iff, hregistry]

end Runs

end Registry
end CloudTemplate
