import CloudTemplate.Proofs.Template.Spelling

/-!
# What the readers find

* Whatever a document text is read as, the names of its maps ascend
  (`Tree.sorted_of_ofBytes`): the JSON reader sorts each object when it closes
  it, and the entries of a YAML mapping are inserted in order.
* A YAML node is read as the tree that it spells, and nothing of it is lost
  (`Source.tree_faithful`).
-/

namespace CloudTemplate

open Outcome

namespace Json

section Fuel

variable {fuel depth : Nat} {c next : Cursor} {tree : Tree}
  (hvalue : ∀ {depth c tree next},
    value .refused fuel depth c = .ok (tree, next) → tree.Sorted)
  (hitems : ∀ {depth seen c tree next}, (∀ item ∈ seen, item.Sorted) →
    items .refused fuel depth seen c = .ok (tree, next) → tree.Sorted)
  (hentries : ∀ {depth} {seen : Entries Tree} {c tree next},
    (∀ entry ∈ seen, entry.2.Sorted) →
    entries .refused fuel depth seen c = .ok (tree, next) → tree.Sorted)

include hitems hentries in
theorem sorted_of_value_succ
    (h : value .refused (fuel + 1) depth c = .ok (tree, next)) : tree.Sorted := by
  rw [value] at h
  simp only at h
  split at h
  · simp [Cursor.stop] at h
  · next b rest hrest =>
    -- The first byte tells which kind of value follows.
    split at h
    · obtain ⟨_, -, heq⟩ := map_eq_ok_iff.1 h
      cases heq
      trivial
    split at h
    · obtain ⟨_, -, heq⟩ := map_eq_ok_iff.1 h
      cases heq
      trivial
    split at h
    · obtain ⟨_, -, heq⟩ := map_eq_ok_iff.1 h
      cases heq
      trivial
    split at h
    · obtain ⟨_, -, heq⟩ := map_eq_ok_iff.1 h
      cases heq
      trivial
    split at h
    · obtain ⟨_, -, heq⟩ := map_eq_ok_iff.1 h
      cases heq
      trivial
    split at h
    · obtain ⟨_, -, heq⟩ := map_eq_ok_iff.1 h
      cases heq
      trivial
    split at h
    · split at h
      · simp [Cursor.stopAhead] at h
      · exact hitems (by simp) h
    split at h
    · split at h
      · simp [Cursor.stopAhead] at h
      · exact hentries (by simp) h
    simp [Cursor.stopAhead] at h

include hvalue hitems in
theorem sorted_of_items_succ
    {seen : List Tree} (hseen : ∀ item ∈ seen, item.Sorted)
    (h : items .refused (fuel + 1) depth seen c = .ok (tree, next)) : tree.Sorted := by
  rw [items] at h
  split at h
  · cases h
  · cases h
    rw [Tree.sorted_list_iff]
    simpa using hseen
  · split at h
    · cases h
    · next hitem =>
      refine hitems (fun item hmem => ?_) h
      rcases List.mem_cons.1 hmem with heq | hmem
      · exact heq ▸ hvalue hitem
      · exact hseen item hmem

include hvalue hentries in
theorem sorted_of_entries_succ
    {seen : Entries Tree} (hseen : ∀ entry ∈ seen, entry.2.Sorted)
    (h : entries .refused (fuel + 1) depth seen c = .ok (tree, next)) : tree.Sorted := by
  rw [entries] at h
  split at h
  · cases h
  · -- The object is closed, and its entries are sorted.
    cases h
    rw [Tree.sorted_map_iff]
    exact ⟨Entries.Ascending.sort seen,
      fun entry hmem => hseen entry (Entries.mem_of_mem_sort hmem)⟩
  · split at h
    · cases h
    · split_ifs at h with hrepeated
      · simp only [duplicateStop, Cursor.stop] at h
        split at h <;> cases h
      · split at h
        · cases h
        · split at h
          · cases h
          · next hitem =>
            refine hentries (fun entry hmem => ?_) h
            rcases List.mem_cons.1 hmem with heq | hmem
            · exact heq ▸ hvalue hitem
            · exact hseen entry hmem

end Fuel

/-- With any fuel, the values, lists and objects that the reader finds are
sorted. -/
theorem sorted_of_value
    (fuel : Nat) :
    (∀ {depth c tree next},
      value .refused fuel depth c = .ok (tree, next) → tree.Sorted) ∧
    (∀ {depth seen c tree next}, (∀ item ∈ seen, item.Sorted) →
      items .refused fuel depth seen c = .ok (tree, next) → tree.Sorted) ∧
    (∀ {depth} {seen : Entries Tree} {c tree next},
      (∀ entry ∈ seen, entry.2.Sorted) →
      entries .refused fuel depth seen c = .ok (tree, next) → tree.Sorted) := by
  induction fuel with
  | zero =>
      refine ⟨fun h => ?_, fun _ h => ?_, fun _ h => ?_⟩
      · simp [value, Cursor.stop] at h
      · simp [items, Cursor.stop] at h
      · simp [entries, Cursor.stop] at h
  | succ fuel ih =>
      obtain ⟨hvalue, hitems, hentries⟩ := ih
      refine ⟨?_, ?_, ?_⟩
      · exact sorted_of_value_succ hitems hentries
      · exact sorted_of_items_succ hvalue hitems
      · exact sorted_of_entries_succ hvalue hentries

theorem sorted_of_read
    {bytes : List UInt8} {tree : Tree} (h : read .refused bytes = .ok tree) :
    tree.Sorted := by
  unfold read readText at h
  simp only [mapError_eq_ok_iff, bind_eq_ok_iff] at h
  obtain ⟨⟨found, next⟩, hvalue, _, -, heq⟩ := h
  cases heq
  exact (sorted_of_value _).1 hvalue

end Json

namespace Yaml.Node

mutual

/-- The node holds the tree, with its maps in the same order. -/
inductive Holds : Node → Tree → Prop
  | null : Holds .null .null
  | bool (value : Bool) : Holds (.bool value) (.bool value)
  | integer (value : Int) : Holds (.integer value) (.number (.integer value))
  | float {value : Float} (h : value.isFinite = true) :
      Holds (.float value) (.number (.binary value))
  | string (text : String) : Holds (.string text) (.string text)
  | sequence {nodes : List Node} {items : List Tree} (h : HoldsItems nodes items) :
      Holds (.sequence nodes) (.list items)
  | mapping {nodes : List (Node × Node)} {entries : List (String × Tree)}
      (hnodup : (entries.map Prod.fst).Nodup) (h : HoldsEntries nodes entries) :
      Holds (.mapping nodes) (.map entries)

/-- The nodes hold the trees, one by one. -/
inductive HoldsItems : List Node → List Tree → Prop
  | nil : HoldsItems [] []
  | cons {node : Node} {item : Tree} {nodes : List Node} {items : List Tree}
      (hhead : Holds node item) (hrest : HoldsItems nodes items) :
      HoldsItems (node :: nodes) (item :: items)

/-- The pairs hold the entries, with the names as texts. -/
inductive HoldsEntries : List (Node × Node) → List (String × Tree) → Prop
  | nil : HoldsEntries [] []
  | cons {name : String} {node : Node} {item : Tree} {nodes : List (Node × Node)}
      {entries : List (String × Tree)}
      (hhead : Holds node item) (hrest : HoldsEntries nodes entries) :
      HoldsEntries ((.string name, node) :: nodes) ((name, item) :: entries)

end

mutual

/-- A tree that is held is spelled, without short tags. -/
theorem Holds.spells {node : Node} {t : Tree} : node.Holds t → node.Spells t.sort
  | .null => .null
  | .bool value => .bool value
  | .integer value => .integer value
  | .float h => .float h
  | .string text => .string text
  | .sequence h => .sequence h.spells
  | @Holds.mapping _ entries hnodup h => by
      rw [Tree.sort, Tree.sortEntries_eq_mapValues]
      refine .mapping h.spells (Entries.sort_perm ?_).symm
      rwa [Entries.names_mapValues]

theorem HoldsItems.spells {nodes : List Node} {items : List Tree} :
    HoldsItems nodes items → SpellsItems nodes (Tree.sortItems items)
  | .nil => .nil
  | .cons hhead hrest => .cons hhead.spells hrest.spells

theorem HoldsEntries.spells {nodes : List (Node × Node)} {entries : Entries Tree} :
    HoldsEntries nodes entries → SpellsEntries nodes (Entries.mapValues Tree.sort entries)
  | .nil => .nil
  | .cons hhead hrest => .cons (.string _) hhead.spells hrest.spells

end

end Yaml.Node

namespace Source

/-- A node becomes the tree that it holds, sorted. -/
theorem tree_of_holds
    {node : Yaml.Node} {t : Tree} (h : node.Holds t) (path : String) :
    tree path node = .ok t.sort :=
  tree_eq_ok_iff.2 ⟨h.spells, t.sorted_sort⟩

end Source

namespace Tree

/-- What is read from a text is sorted. -/
theorem sorted_of_ofBytes
    {format : DocumentFormat} {bytes : List UInt8} {tree : Tree}
    (h : ofBytes format bytes = .ok tree) : tree.Sorted := by
  cases format with
  | json =>
      rw [ofBytes, mapError_eq_ok_iff] at h
      exact Json.sorted_of_read h
  | yaml =>
      rw [ofBytes] at h
      split at h
      · exact (Source.tree_eq_ok_iff.1 h).2
      · cases h

end Tree

namespace Template

theorem ofBytes_eq_of_spells
    {node : Yaml.Node} {t : Tree} {yaml json : List UInt8} (hspells : node.Spells t)
    (hyaml : Yaml.Node.ofBytes? yaml = some node) (hjson : Tree.ofBytes .json json = .ok t) :
    ofBytes .yaml yaml = ofBytes .json json := by
  have htree : Tree.ofBytes .yaml yaml = .ok t := by
    rw [Tree.ofBytes, hyaml]
    exact Source.tree_eq_ok_iff.2 ⟨hspells, Tree.sorted_of_ofBytes hjson⟩
  rw [ofBytes, ofBytes, htree, hjson]

end Template

namespace Source

/-- A node is read as the sorted tree that it spells, whichever maps it writes
with a short tag, so the template is that of the long form in JSON.  Conversely,
all that stands below the node is spelled at the same place of the tree; two keys
with the same text, wherever they stand, are an error. -/
theorem tree_faithful (node : Yaml.Node) :
    (∀ path t, node.Spells t → t.Sorted → tree path node = .ok t) ∧
    (∀ t yaml json, node.Spells t → Yaml.Node.ofBytes? yaml = some node →
      Tree.ofBytes .json json = .ok t →
      Template.ofBytes .yaml yaml = Template.ofBytes .json json) ∧
    (∀ path t, tree path node = .ok t → node.Spells t ∧
      ∀ place found, node.Below place found →
        ∃ inner, t.at? place = some inner ∧ found.Spells inner) ∧
    ∀ path place nodes (i j : Nat) name (key key' child child' : Yaml.Node),
      node.Below place (.mapping nodes) → i ≠ j →
      nodes[i]? = some (key, child) → nodes[j]? = some (key', child') →
      key.Names name → key'.Names name → ∃ error, tree path node = .error error := by
  refine ⟨?_, ?_, ?_, ?_⟩
  · intro path t hspells hsorted
    exact tree_eq_ok_iff.2 ⟨hspells, hsorted⟩
  · intro t yaml json hspells hyaml hjson
    exact Template.ofBytes_eq_of_spells hspells hyaml hjson
  · intro path t h
    obtain ⟨hspells, hsorted⟩ := tree_eq_ok_iff.1 h
    refine ⟨hspells, fun place found hbelow => ?_⟩
    obtain ⟨inner, hinner, hfound, -⟩ := hspells.exists_at? hsorted hbelow
    exact ⟨inner, hinner, hfound⟩
  · intro path place nodes i j name key key' child child' hbelow hij hi hj hkey hkey'
    cases h : tree path node with
    | error e => exact ⟨e, rfl⟩
    | ok t =>
        obtain ⟨hspells, hsorted⟩ := tree_eq_ok_iff.1 h
        exact absurd (hspells.index_eq_of_names hsorted hbelow hi hj hkey hkey') hij

/-- A tagged node below a tagged node, next to the long form. -/
theorem tree_faithful_nested :
    tree "" (.sequence [.tagged "!Base64" (.tagged "!Ref" (.string "A")),
      .mapping [(.string "Fn::Base64", .mapping [(.string "Ref", .string "A")])]]) =
      .ok (.list [.map [("Fn::Base64", .map [("Ref", .string "A")])],
        .map [("Fn::Base64", .map [("Ref", .string "A")])]]) ∧
    ∃ error, tree "" (.mapping [(.integer 1, .null), (.string "1", .null)]) = .error error := by
  constructor
  · refine (tree_faithful _).1 _ _ (.sequence (.cons ?_ (.cons ?_ .nil))) ?_
    · have htag : Yaml.Node.ShortTag (tagName "!Base64") "Fn::Base64" := .call .base64
      exact .tagged htag (.tagged .ref (.string "A"))
    · refine .mapping (.cons (.string _) (.mapping ?_ (.refl _)) .nil) (.refl _)
      exact .cons (.string _) (.string _) .nil
    · simp [Tree.Sorted, Tree.AllSorted, Tree.AllEntriesSorted, Entries.Ascending]
  · exact (tree_faithful _).2.2.2 "" [] _ 0 1 "1" _ _ _ _ (.here _) (by decide) rfl rfl
      (.integer 1) (.string "1")

end Source
end CloudTemplate
