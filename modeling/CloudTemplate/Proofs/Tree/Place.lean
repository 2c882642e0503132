import CloudTemplate.Proofs.Tree

/-!
# Places in document trees

A place in a tree says, step by step, to which child to go: to an item of a list
by its index, to an entry of a map by its name.

* `Tree.at?` is the tree at a place;
* `Tree.replaceAt` puts another tree at a place and leaves all else as it is.

Of entries with the same name both mean the first one.
-/

namespace CloudTemplate

namespace Entries

universe u
variable {α : Type u}

/-- Change the first value under a name. -/
def modifyFirst (g : α → α) (name : String) : Entries α → Entries α
  | [] => []
  | (n, value) :: rest =>
      if n = name then (n, g value) :: rest else (n, value) :: modifyFirst g name rest

variable {g : α → α} {name : String} {value : α} {entries : Entries α}

/-- The entry that is found stands between others, and only its value changes. -/
theorem exists_modifyFirst (h : lookup name entries = some value) :
    ∃ front back, entries = front ++ (name, value) :: back ∧
      ∀ g, modifyFirst g name entries = front ++ (name, g value) :: back := by
  induction entries with
  | nil => cases h
  | cons head rest ih =>
      obtain ⟨n, old⟩ := head
      by_cases hn : n = name
      · subst hn
        simp only [lookup, if_true, Option.some.injEq] at h
        subst h
        exact ⟨[], rest, rfl, fun g => if_pos rfl⟩
      · simp only [lookup, hn, if_false] at h
        obtain ⟨front, back, hrest, hmodify⟩ := ih h
        refine ⟨(n, old) :: front, back, by rw [hrest]; rfl, fun g => ?_⟩
        rw [modifyFirst, if_neg hn, hmodify]
        rfl

theorem modifyFirst_congr {g' : α → α}
    (h : lookup name entries = some value) (hsame : g value = g' value) :
    modifyFirst g name entries = modifyFirst g' name entries := by
  obtain ⟨front, back, -, hmodify⟩ := exists_modifyFirst h
  rw [hmodify, hmodify, hsame]

theorem modifyFirst_id (name : String) (entries : Entries α) :
    modifyFirst id name entries = entries := by
  induction entries with
  | nil => rfl
  | cons head rest ih =>
      rw [modifyFirst, ih]
      split_ifs
      · rfl
      · rfl

@[simp] theorem names_modifyFirst (g : α → α) (name : String) (entries : Entries α) :
    names (modifyFirst g name entries) = names entries := by
  induction entries with
  | nil => rfl
  | cons head rest ih =>
      rw [modifyFirst]
      split_ifs
      · rfl
      · exact congrArg (head.1 :: ·) ih

theorem length_modifyFirst (g : α → α) (name : String) (entries : Entries α) :
    (modifyFirst g name entries).length = entries.length := by
  have hnames := congrArg List.length (names_modifyFirst g name entries)
  rwa [names, names, List.length_map, List.length_map] at hnames

theorem lookup_modifyFirst (g : α → α) (name key : String) (entries : Entries α) :
    lookup key (modifyFirst g name entries) =
      if key = name then (lookup key entries).map g else lookup key entries := by
  induction entries with
  | nil => simp [modifyFirst, lookup]
  | cons head rest ih =>
      obtain ⟨n, old⟩ := head
      rw [modifyFirst]
      by_cases hn : n = name
      · subst hn
        by_cases hkey : n = key
        · simp [lookup, hkey]
        · simp [lookup, hkey, Ne.symm hkey]
      · rw [if_neg hn]
        by_cases hkey : n = key
        · subst hkey
          simp [lookup, hn]
        · simp [lookup, hkey, ih]

theorem hasName_modifyFirst (g : α → α) (name key : String) (entries : Entries α) :
    hasName key (modifyFirst g name entries) = hasName key entries := by
  rw [Bool.eq_iff_iff, hasName_iff, hasName_iff, names_modifyFirst]

theorem filter_modifyFirst
    {p : String → Bool} (h : p name = true) (g : α → α) (entries : Entries α) :
    (modifyFirst g name entries).filter (fun entry => p entry.1) =
      modifyFirst g name (entries.filter fun entry => p entry.1) := by
  induction entries with
  | nil => rfl
  | cons head rest ih =>
      obtain ⟨n, old⟩ := head
      by_cases hn : n = name <;> by_cases hp : p n = true <;> simp_all [modifyFirst]

theorem lookup_filter
    {p : String → Bool} (h : p name = true) (entries : Entries α) :
    lookup name (entries.filter fun entry => p entry.1) = lookup name entries := by
  induction entries with
  | nil => rfl
  | cons head rest ih =>
      obtain ⟨n, old⟩ := head
      by_cases hn : n = name <;> by_cases hp : p n = true <;> simp_all [lookup]

end Entries

namespace Tree

/-- The way from a tree to one of its children. -/
inductive Step where
  | item (index : Nat)
  | entry (name : String)
deriving DecidableEq, Repr

/-- The child that a step leads to. -/
def child? : Tree → Step → Option Tree
  | .list items, .item index => items[index]?
  | .map entries, .entry name => Entries.lookup name entries
  | _, _ => none

/-- The tree at a place. -/
def at? : Tree → List Step → Option Tree
  | tree, [] => some tree
  | tree, step :: rest =>
      match tree.child? step with
      | some child => at? child rest
      | none => none

/-- Change the child that a step leads to. -/
def modifyChild (tree : Tree) (g : Tree → Tree) (step : Step) : Tree :=
  match step, tree with
  | .item index, .list items => .list (items.modify index g)
  | .entry name, .map entries => .map (Entries.modifyFirst g name entries)
  | _, tree => tree

/-- Put another tree at a place. -/
def replaceAt (tree : Tree) : List Step → Tree → Tree
  | [], new => new
  | step :: rest, new => tree.modifyChild (fun child => child.replaceAt rest new) step

variable {tree child found new : Tree} {step : Step} {place rest : List Step}

theorem at?_cons_eq_some_iff :
    tree.at? (step :: rest) = some found ↔
      ∃ child, tree.child? step = some child ∧ child.at? rest = some found := by
  rw [at?]
  cases tree.child? step with
  | none => simp
  | some child => simp

/-- Only a list has items, and only a map has entries. -/
theorem child?_eq_some_iff :
    tree.child? step = some child ↔
      (∃ items index, tree = .list items ∧ step = .item index ∧ items[index]? = some child) ∨
        ∃ entries name, tree = .map entries ∧ step = .entry name ∧
          Entries.lookup name entries = some child := by
  unfold child?
  split
  · simp
  · simp
  · next hlist hmap =>
    refine iff_of_false (by simp) ?_
    rintro (⟨items, index, rfl, rfl, -⟩ | ⟨entries, name, rfl, rfl, -⟩)
    · exact hlist items index rfl rfl
    · exact hmap entries name rfl rfl

theorem exists_of_at?_entry {name : String} (h : tree.at? (.entry name :: rest) = some found) :
    ∃ entries child, tree = .map entries ∧ Entries.lookup name entries = some child ∧
      child.at? rest = some found := by
  obtain ⟨child, hstep, hchild⟩ := at?_cons_eq_some_iff.1 h
  rcases child?_eq_some_iff.1 hstep with
    ⟨_, _, -, hentry, -⟩ | ⟨entries, other, rfl, hentry, hlookup⟩
  · cases hentry
  · cases hentry
    exact ⟨entries, child, rfl, hlookup, hchild⟩

theorem at?_append :
    tree.at? (place ++ rest) = (tree.at? place).bind fun found => found.at? rest := by
  induction place generalizing tree with
  | nil => rfl
  | cons step place ih =>
      rw [List.cons_append, at?, at?]
      cases tree.child? step with
      | none => rfl
      | some child => exact ih

@[simp] theorem replaceAt_list (items : List Tree) (index : Nat) (rest : List Step) (new : Tree) :
    (Tree.list items).replaceAt (.item index :: rest) new =
      .list (items.modify index fun tree => tree.replaceAt rest new) := rfl

@[simp] theorem replaceAt_map
    (entries : Entries Tree) (name : String) (rest : List Step) (new : Tree) :
    (Tree.map entries).replaceAt (.entry name :: rest) new =
      .map (Entries.modifyFirst (fun tree => tree.replaceAt rest new) name entries) := rfl

theorem modifyChild_congr {g g' : Tree → Tree}
    (h : tree.child? step = some child) (hsame : g child = g' child) :
    tree.modifyChild g step = tree.modifyChild g' step := by
  rcases child?_eq_some_iff.1 h with
    ⟨items, index, rfl, rfl, hindex⟩ | ⟨entries, name, rfl, rfl, hlookup⟩
  · refine congrArg Tree.list (List.ext_getElem? fun i => ?_)
    rw [List.getElem?_modify, List.getElem?_modify]
    by_cases hi : index = i
    · subst hi
      simp [hindex, hsame]
    · simp [hi]
  · exact congrArg Tree.map (Entries.modifyFirst_congr hlookup hsame)

theorem modifyChild_id (tree : Tree) (step : Step) : tree.modifyChild id step = tree := by
  unfold modifyChild
  split
  · rw [List.modify_id]
  · rw [Entries.modifyFirst_id]
  · rfl

theorem replaceAt_self (h : tree.at? place = some found) : tree.replaceAt place found = tree := by
  induction place generalizing tree with
  | nil =>
      cases h
      rfl
  | cons step rest ih =>
      obtain ⟨child, hstep, hchild⟩ := at?_cons_eq_some_iff.1 h
      exact (modifyChild_congr hstep (ih hchild)).trans (modifyChild_id tree step)

theorem replaceAt_append (h : tree.at? place = some found) (rest : List Step) (new : Tree) :
    tree.replaceAt (place ++ rest) new = tree.replaceAt place (found.replaceAt rest new) := by
  induction place generalizing tree with
  | nil =>
      cases h
      rfl
  | cons step place ih =>
      obtain ⟨child, hstep, hchild⟩ := at?_cons_eq_some_iff.1 h
      exact modifyChild_congr hstep (ih hchild)

theorem at?_replaceAt (h : tree.at? place = some found) (new : Tree) :
    (tree.replaceAt place new).at? place = some new := by
  induction place generalizing tree with
  | nil => rfl
  | cons step rest ih =>
      obtain ⟨child, hstep, hchild⟩ := at?_cons_eq_some_iff.1 h
      refine at?_cons_eq_some_iff.2 ⟨child.replaceAt rest new, ?_, ih hchild⟩
      rcases child?_eq_some_iff.1 hstep with
        ⟨items, index, rfl, rfl, hindex⟩ | ⟨entries, name, rfl, rfl, hlookup⟩
      · exact (List.getElem?_modify_eq ..).trans (congrArg (Option.map _) hindex)
      · exact (Entries.lookup_modifyFirst ..).trans
          ((if_pos rfl).trans (congrArg (Option.map _) hlookup))

section Maps

variable {given : Entries Tree}

/-- Only maps and lists have a map below, and they stay what they are when its
entries change. -/
theorem exists_replaceAt (h : tree.at? place = some (.map given)) :
    (∃ (entries : Entries Tree) (change : Entries Tree → Entries Tree), tree = .map entries ∧
      ∀ other, tree.replaceAt place (.map other) = .map (change other)) ∨
    ∃ (items : List Tree) (change : Entries Tree → List Tree), tree = .list items ∧
      ∀ other, tree.replaceAt place (.map other) = .list (change other) := by
  cases place with
  | nil =>
      cases h
      exact Or.inl ⟨given, id, rfl, fun _ => rfl⟩
  | cons step rest =>
      obtain ⟨child, hstep, -⟩ := at?_cons_eq_some_iff.1 h
      rcases child?_eq_some_iff.1 hstep with
        ⟨items, index, rfl, rfl, -⟩ | ⟨entries, name, rfl, rfl, -⟩
      · exact Or.inr ⟨items, _, rfl, fun _ => rfl⟩
      · exact Or.inl ⟨entries, _, rfl, fun _ => rfl⟩

theorem kind_replaceAt (h : tree.at? place = some (.map given)) (other : Entries Tree) :
    (tree.replaceAt place (.map other)).kind = tree.kind := by
  rcases exists_replaceAt h with ⟨entries, change, rfl, hother⟩ | ⟨items, change, rfl, hother⟩
  · rw [hother]
    rfl
  · rw [hother]
    rfl

end Maps

end Tree
end CloudTemplate
