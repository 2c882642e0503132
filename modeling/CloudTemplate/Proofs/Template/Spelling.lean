import CloudTemplate.Proofs.Outcome
import CloudTemplate.Proofs.Tree.Place
import CloudTemplate.Template.Source

/-!
# The ways to spell a tree in YAML

A YAML node spells a document tree (`Yaml.Node.Spells`) when it is the tree
itself, except that

* a map with a single key that has a short tag may be written as a tagged node,
  at every level anew (`Yaml.Node.ShortTag`);
* the entries of a mapping may stand in any order;
* a key may be a string or any other scalar with the same text
  (`Yaml.Node.Names`).

The reader finds a tree just where the node spells it
(`Source.tree_eq_ok_iff`).  So nothing is lost or overwritten on the way: what
stands at a place of the node is spelled there for the tree at the same place
(`Yaml.Node.Spells.exists_at?`).
-/

namespace CloudTemplate

open Outcome

namespace Yaml.Node

/-- The short tag of the key of a reference or function. -/
inductive ShortTag : String → String → Prop
  | ref : ShortTag "Ref" "Ref"
  | condition : ShortTag "Condition" "Condition"
  | attr : ShortTag "GetAtt" "Fn::GetAtt"
  | call (f : Intrinsic) : ShortTag f.shortName f.key

/-- The node is a key with this text. -/
inductive Names : Node → String → Prop
  | string (text : String) : Names (.string text) text
  | bool (value : Bool) : Names (.bool value) (if value then "true" else "false")
  | integer (value : Int) : Names (.integer value) (toString value)
  | float (value : Float) : Names (.float value) (numberText value)

mutual

/-- The node spells the tree, with short tags wherever it likes. -/
inductive Spells : Node → Tree → Prop
  | null : Spells .null .null
  | bool (value : Bool) : Spells (.bool value) (.bool value)
  | integer (value : Int) : Spells (.integer value) (.number (.integer value))
  | float {value : Float} (h : value.isFinite = true) :
      Spells (.float value) (.number (.binary value))
  | string (text : String) : Spells (.string text) (.string text)
  | sequence {nodes : List Node} {items : List Tree} (h : SpellsItems nodes items) :
      Spells (.sequence nodes) (.list items)
  | mapping {nodes : List (Node × Node)} {written entries : List (String × Tree)}
      (h : SpellsEntries nodes written) (horder : written.Perm entries) :
      Spells (.mapping nodes) (.map entries)
  | tagged {tag key : String} {node : Node} {inner : Tree}
      (htag : ShortTag (Source.tagName tag) key) (h : Spells node inner) :
      Spells (.tagged tag node) (.map [(key, inner)])

/-- The nodes spell the trees, one by one. -/
inductive SpellsItems : List Node → List Tree → Prop
  | nil : SpellsItems [] []
  | cons {node : Node} {item : Tree} {nodes : List Node} {items : List Tree}
      (hhead : Spells node item) (hrest : SpellsItems nodes items) :
      SpellsItems (node :: nodes) (item :: items)

/-- The pairs spell the entries, one by one. -/
inductive SpellsEntries : List (Node × Node) → List (String × Tree) → Prop
  | nil : SpellsEntries [] []
  | cons {key node : Node} {name : String} {item : Tree} {nodes : List (Node × Node)}
      {entries : List (String × Tree)} (hkey : Names key name) (hhead : Spells node item)
      (hrest : SpellsEntries nodes entries) :
      SpellsEntries ((key, node) :: nodes) ((name, item) :: entries)

end

/-- A node stands below another one, at a place of the tree that this one spells. -/
inductive Below : Node → List Tree.Step → Node → Prop
  | here (node : Node) : Below node [] node
  | item {nodes : List Node} {index : Nat} {child found : Node} {rest : List Tree.Step}
      (hchild : nodes[index]? = some child) (h : Below child rest found) :
      Below (.sequence nodes) (.item index :: rest) found
  | entry {nodes : List (Node × Node)} {key child found : Node} {name : String}
      {rest : List Tree.Step} (hchild : (key, child) ∈ nodes) (hkey : Names key name)
      (h : Below child rest found) :
      Below (.mapping nodes) (.entry name :: rest) found
  | tagged {tag key : String} {child found : Node} {rest : List Tree.Step}
      (htag : ShortTag (Source.tagName tag) key) (h : Below child rest found) :
      Below (.tagged tag child) (.entry key :: rest) found

theorem Names.unique {key : Node} {name name' : String}
    (h : key.Names name) (h' : key.Names name') : name = name' := by
  cases h <;> cases h' <;> rfl

end Yaml.Node

namespace Source

open Yaml.Node (ShortTag Names Spells SpellsItems SpellsEntries)

variable {path tag key name : String} {node : Yaml.Node} {t : Tree}

theorem tagKey?_shortName (f : Intrinsic) : tagKey? f.shortName = some f.key := by
  cases f <;> decide

/-- The short tags are those of references and functions. -/
theorem tagKey?_eq_some_iff : tagKey? tag = some key ↔ ShortTag tag key := by
  constructor
  · intro h
    unfold tagKey? at h
    split_ifs at h with href hcondition hattr
    · cases h
      exact href ▸ .ref
    · cases h
      exact hcondition ▸ .condition
    · cases h
      exact hattr ▸ .attr
    · obtain ⟨f, hf, rfl⟩ := Option.map_eq_some_iff.1 h
      have hname : f.shortName = tag := by simpa using List.find?_some hf
      exact hname ▸ .call f
  · rintro (_ | _ | _ | f)
    · rfl
    · rfl
    · rfl
    · exact tagKey?_shortName f

theorem keyText_eq_ok_iff {key : Yaml.Node} : keyText path key = .ok name ↔ key.Names name := by
  constructor
  · intro h
    unfold keyText at h
    split at h <;> cases h
    · exact .string _
    · exact .bool _
    · exact .integer _
    · exact .float _
  · rintro (_ | _ | _ | _) <;> rfl

section Reading

mutual

/-- The reader finds the sorted tree that the node spells. -/
theorem tree_eq_ok_iff :
    ∀ {path : String} {node : Yaml.Node} {t : Tree},
      tree path node = .ok t ↔ node.Spells t ∧ t.Sorted
  | path, .null, t => by
      constructor
      · intro h
        cases h
        exact ⟨.null, trivial⟩
      · rintro ⟨⟨⟩, -⟩
        rfl
  | path, .bool value, t => by
      constructor
      · intro h
        cases h
        exact ⟨.bool value, trivial⟩
      · rintro ⟨⟨⟩, -⟩
        rfl
  | path, .integer value, t => by
      constructor
      · intro h
        cases h
        exact ⟨.integer value, trivial⟩
      · rintro ⟨⟨⟩, -⟩
        rfl
  | path, .float value, t => by
      rw [tree]
      constructor
      · intro h
        split_ifs at h with hfinite
        cases h
        exact ⟨.float hfinite, trivial⟩
      · rintro ⟨⟨⟩, -⟩
        next hfinite => rw [if_pos hfinite]
  | path, .string text, t => by
      constructor
      · intro h
        cases h
        exact ⟨.string text, trivial⟩
      · rintro ⟨⟨⟩, -⟩
        rfl
  | path, .sequence nodes, t => by
      rw [tree, map_eq_ok_iff]
      simp only [items_eq_ok_iff]
      constructor
      · rintro ⟨found, ⟨hitems, hsorted⟩, rfl⟩
        exact ⟨.sequence hitems, Tree.sorted_list_iff.2 hsorted⟩
      · rintro ⟨⟨⟩, hsorted⟩
        next found hitems => exact ⟨found, ⟨hitems, Tree.sorted_list_iff.1 hsorted⟩, rfl⟩
  | path, .mapping nodes, t => by
      rw [tree, map_eq_ok_iff]
      simp only [entries_eq_ok_iff]
      constructor
      · rintro ⟨_, ⟨written, hwritten, hsorted, hnodup, -, rfl⟩, rfl⟩
        refine ⟨.mapping hwritten (Entries.sort_perm hnodup).symm, ?_⟩
        exact Tree.sorted_map_iff.2 ⟨.sort written,
          fun entry hentry => hsorted entry (Entries.mem_of_mem_sort hentry)⟩
      · rintro ⟨⟨⟩, hsorted⟩
        next written found hperm hwritten =>
        obtain ⟨hascending, hall⟩ := Tree.sorted_map_iff.1 hsorted
        have hnodup : (Entries.names written).Nodup :=
          ((hperm.map Prod.fst).nodup_iff).2 hascending.nodup_names
        refine ⟨found, ⟨written, hwritten, fun entry hentry => ?_, hnodup, by simp [Entries.names],
          ?_⟩, rfl⟩
        · exact hall entry (hperm.mem_iff.1 hentry)
        · exact Entries.sort_eq_of_mem_iff hnodup hascending fun entry => hperm.mem_iff
  | path, .tagged tag node, t => by
      rw [tree]
      constructor
      · intro h
        split at h
        · cases h
        · next inner hinner =>
          obtain ⟨hspells, hsorted⟩ := tree_eq_ok_iff.1 hinner
          split at h
          · next key hkey =>
            cases h
            refine ⟨.tagged (tagKey?_eq_some_iff.1 hkey) hspells, Tree.sorted_map_iff.2 ?_⟩
            exact ⟨List.pairwise_singleton .., List.forall_mem_singleton.2 hsorted⟩
          · cases h
      · rintro ⟨⟨⟩, hsorted⟩
        next key inner htag hspells =>
        have hinner : inner.Sorted :=
          (Tree.sorted_map_iff.1 hsorted).2 (key, inner) (List.mem_singleton_self _)
        rw [tree_eq_ok_iff.2 ⟨hspells, hinner⟩]
        simp only [tagKey?_eq_some_iff.2 htag]

theorem items_eq_ok_iff :
    ∀ {path : String} {index : Nat} {nodes : List Yaml.Node} {found : List Tree},
      items path index nodes = .ok found ↔
        SpellsItems nodes found ∧ ∀ item ∈ found, item.Sorted
  | path, index, [], found => by
      constructor
      · intro h
        cases h
        exact ⟨.nil, by simp⟩
      · rintro ⟨⟨⟩, -⟩
        rfl
  | path, index, node :: rest, found => by
      rw [items]
      constructor
      · intro h
        split at h
        · cases h
        · next item hitem =>
          obtain ⟨others, hothers, rfl⟩ := map_eq_ok_iff.1 h
          obtain ⟨hspells, hsorted⟩ := tree_eq_ok_iff.1 hitem
          obtain ⟨hspellsRest, hsortedRest⟩ := items_eq_ok_iff.1 hothers
          exact ⟨.cons hspells hspellsRest, List.forall_mem_cons.2 ⟨hsorted, hsortedRest⟩⟩
      · rintro ⟨⟨⟩, hsorted⟩
        next item others hspells hspellsRest =>
        obtain ⟨hhead, hrest⟩ := List.forall_mem_cons.1 hsorted
        rw [tree_eq_ok_iff.2 ⟨hspells, hhead⟩]
        simp only [items_eq_ok_iff.2 ⟨hspellsRest, hrest⟩, map_ok]

/-- The entries are inserted one by one, each with a new name. -/
theorem entries_eq_ok_iff :
    ∀ {path : String} {nodes : List (Yaml.Node × Yaml.Node)} {found all : Entries Tree},
      entries path found nodes = .ok all ↔
        ∃ written : Entries Tree, SpellsEntries nodes written ∧
          (∀ entry ∈ written, entry.2.Sorted) ∧ written.names.Nodup ∧
          (∀ name ∈ written.names, name ∉ found.names) ∧
          written.foldl (fun table entry => Entries.insert entry.1 entry.2 table) found = all
  | path, [], found, all => by
      constructor
      · intro h
        cases h
        exact ⟨[], .nil, by simp, List.nodup_nil, by simp [Entries.names], rfl⟩
      · rintro ⟨_, ⟨⟩, -, -, -, rfl⟩
        rfl
  | path, (key, node) :: rest, found, all => by
      rw [entries]
      constructor
      · intro h
        split at h
        · cases h
        · next name hname =>
          split at h
          · cases h
          · next item hitem =>
            split_ifs at h with hrepeated
            rw [Entries.hasName_iff] at hrepeated
            obtain ⟨hspells, hsorted⟩ := tree_eq_ok_iff.1 hitem
            obtain ⟨written, hwritten, hall, hnodup, hfresh, rfl⟩ := entries_eq_ok_iff.1 h
            refine ⟨(name, item) :: written, .cons (keyText_eq_ok_iff.1 hname) hspells hwritten,
              List.forall_mem_cons.2 ⟨hsorted, hall⟩, List.nodup_cons.2 ⟨fun hmem => ?_, hnodup⟩,
              fun other hother => ?_, rfl⟩
            · exact hfresh name hmem (Entries.mem_names_insert.2 (Or.inl rfl))
            · rcases Entries.mem_names_cons.1 hother with rfl | hother
              · exact hrepeated
              · exact fun hmem => hfresh other hother (Entries.mem_names_insert.2 (Or.inr hmem))
      · rintro ⟨_, ⟨⟩, hsorted, hnodup, hfresh, rfl⟩
        next name item written hkey hspells hwritten =>
        obtain ⟨hhead, hrest⟩ := List.forall_mem_cons.1 hsorted
        obtain ⟨hnot, hnodupRest⟩ := List.nodup_cons.1 hnodup
        have hname : Entries.hasName name found = false := by
          rw [← Bool.not_eq_true, Entries.hasName_iff]
          exact hfresh name (List.mem_cons_self ..)
        rw [keyText_eq_ok_iff.2 hkey]
        simp only [tree_eq_ok_iff.2 ⟨hspells, hhead⟩, hname]
        refine entries_eq_ok_iff.2 ⟨written, hwritten, hrest, hnodupRest, fun other hother => ?_,
          rfl⟩
        rw [Entries.mem_names_insert, not_or]
        exact ⟨fun heq => hnot (heq ▸ hother), hfresh other (List.mem_cons_of_mem _ hother)⟩

end

end Reading

end Source

namespace Yaml.Node

variable {node found : Node} {t : Tree} {place : List Tree.Step}

theorem ShortTag.unique {tag key key' : String}
    (h : ShortTag tag key) (h' : ShortTag tag key') : key = key' :=
  Option.some_injective _
    ((Source.tagKey?_eq_some_iff.2 h).symm.trans (Source.tagKey?_eq_some_iff.2 h'))

theorem SpellsItems.exists_getElem?
    {nodes : List Node} {items : List Tree} (h : SpellsItems nodes items) {index : Nat}
    (hnode : nodes[index]? = some node) :
    ∃ item, items[index]? = some item ∧ node.Spells item := by
  induction nodes generalizing items index with
  | nil => simp at hnode
  | cons first rest ih =>
      cases h with
      | cons hhead hrest =>
          cases index with
          | zero =>
              cases hnode
              exact ⟨_, rfl, hhead⟩
          | succ index => exact ih hrest hnode

theorem SpellsEntries.exists_getElem?
    {nodes : List (Node × Node)} {entries : Entries Tree} (h : SpellsEntries nodes entries)
    {index : Nat} {key : Node} (hnode : nodes[index]? = some (key, node)) :
    ∃ name item, entries[index]? = some (name, item) ∧ key.Names name ∧ node.Spells item := by
  induction nodes generalizing entries index with
  | nil => simp at hnode
  | cons first rest ih =>
      cases h with
      | cons hkey hhead hrest =>
          cases index with
          | zero =>
              cases hnode
              exact ⟨_, _, rfl, hkey, hhead⟩
          | succ index => exact ih hrest hnode

/-- What stands at a place of the node is spelled there for the tree at the same
place. -/
theorem Spells.exists_at?
    (h : node.Spells t) (hsorted : t.Sorted) (hbelow : node.Below place found) :
    ∃ inner, t.at? place = some inner ∧ found.Spells inner ∧ inner.Sorted := by
  induction hbelow generalizing t with
  | here node => exact ⟨t, rfl, h, hsorted⟩
  | item hchild _ ih =>
      cases h with
      | sequence hitems =>
          obtain ⟨item, hitem, hspells⟩ := hitems.exists_getElem? hchild
          obtain ⟨inner, hinner, hfound⟩ :=
            ih hspells (Tree.sorted_list_iff.1 hsorted item (List.mem_of_getElem? hitem))
          exact ⟨inner, Tree.at?_cons_eq_some_iff.2 ⟨item, hitem, hinner⟩, hfound⟩
  | entry hchild hkey _ ih =>
      cases h with
      | mapping hwritten hperm =>
          obtain ⟨index, hindex⟩ := List.getElem?_of_mem hchild
          obtain ⟨name, item, hitem, hname, hspells⟩ := hwritten.exists_getElem? hindex
          cases hkey.unique hname
          obtain ⟨hascending, hall⟩ := Tree.sorted_map_iff.1 hsorted
          have hmem := hperm.mem_iff.1 (List.mem_of_getElem? hitem)
          obtain ⟨inner, hinner, hfound⟩ := ih hspells (hall _ hmem)
          exact ⟨inner,
            Tree.at?_cons_eq_some_iff.2 ⟨item, hascending.lookup_of_mem hmem, hinner⟩, hfound⟩
  | tagged htag _ ih =>
      cases h with
      | @tagged _ _ _ item htag' hspells =>
          cases htag.unique htag'
          have hitem : item.Sorted :=
            (Tree.sorted_map_iff.1 hsorted).2 (_, item) (List.mem_singleton_self _)
          obtain ⟨inner, hinner, hfound⟩ := ih hspells hitem
          exact ⟨inner, Tree.at?_cons_eq_some_iff.2 ⟨item, if_pos rfl, hinner⟩, hfound⟩

/-- No two keys of a mapping have the same text, wherever it stands. -/
theorem Spells.index_eq_of_names
    {nodes : List (Node × Node)} {i j : Nat} {key key' child child' : Node} {name : String}
    (h : node.Spells t) (hsorted : t.Sorted) (hbelow : node.Below place (.mapping nodes))
    (hi : nodes[i]? = some (key, child)) (hj : nodes[j]? = some (key', child'))
    (hkey : key.Names name) (hkey' : key'.Names name) : i = j := by
  obtain ⟨inner, -, hspells, hinner⟩ := h.exists_at? hsorted hbelow
  cases hspells with
  | @mapping _ written _ hwritten hperm =>
      obtain ⟨_, item, hitem, hname, -⟩ := hwritten.exists_getElem? hi
      obtain ⟨_, item', hitem', hname', -⟩ := hwritten.exists_getElem? hj
      cases hkey.unique hname
      cases hkey'.unique hname'
      have hnodup := ((hperm.map Prod.fst).nodup_iff).2
        (Tree.sorted_map_iff.1 hinner).1.nodup_names
      have hnames : (written.map Prod.fst)[i]? = some name := by
        rw [List.getElem?_map, hitem, Option.map_some]
      have hnames' : (written.map Prod.fst)[j]? = some name := by
        rw [List.getElem?_map, hitem', Option.map_some]
      obtain ⟨hlt, -⟩ := List.getElem?_eq_some_iff.1 hnames
      exact (List.getElem?_inj hlt hnodup).1 (hnames.trans hnames'.symm)

end Yaml.Node
end CloudTemplate
