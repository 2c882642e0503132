import CloudTemplate.Proofs.Outcome
import CloudTemplate.Proofs.Reference.Position
import CloudTemplate.Proofs.Tree
import CloudTemplate.Template.Reading
import CloudTemplate.Template.Writing

/-!
# Reading back what was written of a value

References and calls are written as maps with a single entry, so a map of
literals with a single entry may look like one of them.  A value is normal when
none of its maps does, all maps ascend, and the arguments of all calls pass the
check of the call (`Value.Normal`).

Main statements: every value that is read is normal (`Reading.normal_of_value`),
and a normal value is read back from its tree (`Reading.value_toTree`).
-/

namespace CloudTemplate

open Outcome

namespace Reading

theorem value_list
    (path : String) (trees : List Tree) :
    value path (.list trees) = (items path 0 trees).map .list := by
  rw [value]

/-- A map with no entry or several is read entry by entry. -/
theorem value_map
    {path : String} {trees : Entries Tree} (h : ∀ key item, trees ≠ [(key, item)]) :
    value path (.map trees) = (entries path trees).map .map := by
  rw [value]
  exact h

end Reading

namespace Value

mutual

/-- The property holds of a value and of all its parts. -/
def Everywhere (p : Value → Prop) : Value → Prop
  | .null => p .null
  | .bool value => p (.bool value)
  | .number value => p (.number value)
  | .string value => p (.string value)
  | .list items => p (.list items) ∧ EverywhereItems p items
  | .map entries => p (.map entries) ∧ EverywhereEntries p entries
  | .ref target => p (.ref target)
  | .attr target name => p (.attr target name)
  | .condition name => p (.condition name)
  | .apply f arguments => p (.apply f arguments) ∧ EverywhereItems p arguments

/-- The property holds everywhere in the items of a list. -/
def EverywhereItems (p : Value → Prop) : List Value → Prop
  | [] => True
  | item :: rest => Everywhere p item ∧ EverywhereItems p rest

/-- The property holds everywhere in the entries of a map. -/
def EverywhereEntries (p : Value → Prop) : List (String × Value) → Prop
  | [] => True
  | (_, item) :: rest => Everywhere p item ∧ EverywhereEntries p rest

end

/-- A map has ascending names, and a call passes the check of its arguments. -/
def SoundNode : Value → Prop
  | .map entries => Entries.Ascending entries
  | .apply f arguments => callFault? f arguments = none
  | _ => True

/-- A map with this entry alone does not look like a reference or a call. -/
structure PlainEntry (key : String) (v : Value) : Prop where
  ne_ref : key ≠ "Ref"
  no_function : ¬ Intrinsic.keyStart.toList <+: key.toList
  condition : key = "Condition" → v.string? = none

/-- A map does not look like a reference or a call. -/
def PlainNode : Value → Prop
  | .map [(key, v)] => PlainEntry key v
  | _ => True

/-- The maps and calls of the value are well-formed. -/
def Sound (v : Value) : Prop :=
  v.Everywhere SoundNode

/-- No map of the value looks like a reference or a call. -/
def Plain (v : Value) : Prop :=
  v.Everywhere PlainNode

/-- The value can be told apart in its written form. -/
def Normal (v : Value) : Prop :=
  v.Everywhere fun node => SoundNode node ∧ PlainNode node

section Parts

variable {p q : Value → Prop}

theorem everywhereItems_iff
    {items : List Value} :
    EverywhereItems p items ↔ ∀ item ∈ items, item.Everywhere p := by
  induction items with
  | nil => simp [EverywhereItems]
  | cons head rest ih => simp [EverywhereItems, ih]

theorem everywhereEntries_iff
    {entries : Entries Value} :
    EverywhereEntries p entries ↔ ∀ entry ∈ entries, entry.2.Everywhere p := by
  induction entries with
  | nil => simp [EverywhereEntries]
  | cons head rest ih => simp [EverywhereEntries, ih]

theorem everywhere_list_iff
    {items : List Value} :
    (Value.list items).Everywhere p ↔
      p (.list items) ∧ ∀ item ∈ items, item.Everywhere p := by
  rw [Everywhere, everywhereItems_iff]

theorem everywhere_map_iff
    {entries : Entries Value} :
    (Value.map entries).Everywhere p ↔
      p (.map entries) ∧ ∀ entry ∈ entries, entry.2.Everywhere p := by
  rw [Everywhere, everywhereEntries_iff]

theorem everywhere_apply_iff
    {f : Intrinsic} {arguments : List Value} :
    (Value.apply f arguments).Everywhere p ↔
      p (.apply f arguments) ∧ ∀ argument ∈ arguments, argument.Everywhere p := by
  rw [Everywhere, everywhereItems_iff]

/-- Two properties of a node and of all its children at once. -/
private theorem and_forall_iff
    {ι : Type} {list : List ι} {a b : Prop} {r s t : ι → Prop}
    (h : ∀ i ∈ list, r i ↔ s i ∧ t i) :
    ((a ∧ b) ∧ ∀ i ∈ list, r i) ↔
      (a ∧ ∀ i ∈ list, s i) ∧ (b ∧ ∀ i ∈ list, t i) := by
  constructor
  · rintro ⟨⟨ha, hb⟩, hr⟩
    exact ⟨⟨ha, fun i hi => ((h i hi).1 (hr i hi)).1⟩,
      hb, fun i hi => ((h i hi).1 (hr i hi)).2⟩
  · rintro ⟨⟨ha, hs⟩, hb, ht⟩
    exact ⟨⟨ha, hb⟩, fun i hi => (h i hi).2 ⟨hs i hi, ht i hi⟩⟩

theorem everywhere_and_iff
    {v : Value} :
    v.Everywhere (fun node => p node ∧ q node) ↔ v.Everywhere p ∧ v.Everywhere q := by
  induction v using Value.induction with
  | list items ih =>
      simp only [everywhere_list_iff]
      exact and_forall_iff ih
  | map entries ih =>
      simp only [everywhere_map_iff]
      exact and_forall_iff ih
  | apply f arguments ih =>
      simp only [everywhere_apply_iff]
      exact and_forall_iff ih
  | _ => simp [Everywhere]

theorem normal_iff {v : Value} : v.Normal ↔ v.Sound ∧ v.Plain :=
  everywhere_and_iff

@[simp] theorem normal_list_iff
    {items : List Value} : (Value.list items).Normal ↔ ∀ item ∈ items, item.Normal := by
  simp [Normal, everywhere_list_iff, SoundNode, PlainNode]

theorem plainNode_map_iff
    {entries : Entries Value} :
    PlainNode (.map entries) ↔ ∀ key v, entries = [(key, v)] → PlainEntry key v := by
  match entries with
  | [] => simp [PlainNode]
  | [(key, v)] =>
      constructor
      · rintro h key' v' heq
        cases heq
        exact h
      · intro h
        exact h key v rfl
  | _ :: _ :: _ => simp [PlainNode]

@[simp] theorem normal_map_iff
    {entries : Entries Value} :
    (Value.map entries).Normal ↔
      entries.Ascending ∧ (∀ entry ∈ entries, entry.2.Normal) ∧
        ∀ key v, entries = [(key, v)] → PlainEntry key v := by
  rw [Normal, everywhere_map_iff, plainNode_map_iff, SoundNode]
  exact ⟨fun ⟨⟨hascending, hplain⟩, hall⟩ => ⟨hascending, hall, hplain⟩,
    fun ⟨hascending, hall, hplain⟩ => ⟨⟨hascending, hplain⟩, hall⟩⟩

@[simp] theorem normal_apply_iff
    {f : Intrinsic} {arguments : List Value} :
    (Value.apply f arguments).Normal ↔
      callFault? f arguments = none ∧ ∀ argument ∈ arguments, argument.Normal := by
  simp [Normal, everywhere_apply_iff, SoundNode, PlainNode]

theorem toTrees_eq_map (items : List Value) : toTrees items = items.map toTree := by
  induction items with
  | nil => rfl
  | cons head rest ih => simp [toTrees, ih]

theorem toTreeEntries_eq_mapValues (entries : Entries Value) :
    toTreeEntries entries = Entries.mapValues toTree entries := by
  induction entries with
  | nil => rfl
  | cons head rest ih => simp [toTreeEntries, ih, Entries.mapValues]

end Parts

section Calls

variable {f : Intrinsic} {arguments : List Value}

/-- The arguments as they are written: `Fn::If` names its condition by a bare
string. -/
def bareCondition : Intrinsic → List Value → List Value
  | .ifElse, .condition name :: rest => .string name :: rest
  | _, arguments => arguments

theorem toTree_apply (f : Intrinsic) (arguments : List Value) :
    (Value.apply f arguments).toTree =
      .single f.key (callBody f (toTrees (bareCondition f arguments))) := by
  unfold bareCondition
  split
  · rfl
  · next hnot =>
    rw [toTree]
    exact hnot

theorem length_of_callFault?_eq_none
    (h : callFault? f arguments = none) :
    f.arity.1 ≤ arguments.length ∧ arguments.length ≤ f.arity.2 := by
  unfold callFault? at h
  simp only at h
  split at h
  · cases h
  · omega

theorem length_of_isBare
    (hbare : f.isBare = true) (h : callFault? f arguments = none) :
    arguments.length = 1 := by
  have hlength := length_of_callFault?_eq_none h
  cases f <;> simp_all [Intrinsic.isBare, Intrinsic.arity] <;> omega

/-- The condition of a call of `Fn::If` is found again. -/
theorem withConditionName_bareCondition
    (h : callFault? f arguments = none) :
    Reading.withConditionName f (bareCondition f arguments) = arguments := by
  unfold bareCondition
  split
  · rfl
  · next hnot =>
    unfold Reading.withConditionName
    split
    · simp only [callFault?] at h
      split_ifs at h
    · rfl

@[simp] theorem length_bareCondition (f : Intrinsic) (arguments : List Value) :
    (bareCondition f arguments).length = arguments.length := by
  unfold bareCondition
  split <;> simp

theorem mem_bareCondition
    {v : Value} (h : v ∈ bareCondition f arguments) :
    (∃ name, v = .string name) ∨ v ∈ arguments := by
  unfold bareCondition at h
  split at h
  · rcases List.mem_cons.1 h with heq | h
    · exact Or.inl ⟨_, heq⟩
    · exact Or.inr (List.mem_cons_of_mem _ h)
  · exact Or.inr h

theorem callBody_eq_list
    {trees : List Tree} (h : (f.isBare || f = .sub) = false ∨ trees.length ≠ 1) :
    callBody f trees = .list trees := by
  unfold callBody
  split
  · next tree =>
    rcases h with h | h
    · rw [h]
      rfl
    · exact absurd rfl h
  · rfl

end Calls

/-- Only a list is written as a list. -/
theorem toTree_eq_list
    {v : Value} {trees : List Tree} (h : v.toTree = .list trees) :
    ∃ items, v = .list items ∧ trees = toTrees items := by
  cases v with
  | list items =>
      rw [toTree] at h
      cases h
      exact ⟨items, rfl, rfl⟩
  | apply f arguments =>
      rw [toTree_apply] at h
      cases h
  | _ => cases h

/-- Only a string is written as a string. -/
theorem toTree_eq_string
    {v : Value} {text : String} (h : v.toTree = .string text) : v = .string text := by
  cases v with
  | string value =>
      cases h
      rfl
  | apply f arguments =>
      rw [toTree_apply] at h
      cases h
  | _ => cases h

end Value

theorem Tree.sorted_single
    {key : String} {tree : Tree} (h : tree.Sorted) : (Tree.single key tree).Sorted := by
  rw [Tree.single, Tree.sorted_map_iff]
  refine ⟨List.pairwise_singleton .., fun entry hentry => ?_⟩
  rw [List.mem_singleton.1 hentry]
  exact h

namespace Value

/-- The tree of a normal value is sorted. -/
theorem Normal.sorted_toTree {v : Value} (h : v.Normal) : v.toTree.Sorted := by
  induction v using Value.induction with
  | null => trivial
  | bool value => trivial
  | number value => trivial
  | string value => trivial
  | list items ih =>
      rw [normal_list_iff] at h
      rw [toTree, toTrees_eq_map, Tree.sorted_list_iff]
      intro tree htree
      obtain ⟨item, hitem, rfl⟩ := List.mem_map.1 htree
      exact ih item hitem (h item hitem)
  | map entries ih =>
      obtain ⟨hascending, hnormal, -⟩ := normal_map_iff.1 h
      rw [toTree, toTreeEntries_eq_mapValues, Tree.sorted_map_iff]
      refine ⟨hascending.mapValues toTree, fun entry hentry => ?_⟩
      obtain ⟨given, hgiven, rfl⟩ := List.mem_map.1 hentry
      exact ih given hgiven (hnormal given hgiven)
  | ref target => exact Tree.sorted_single trivial
  | attr target name =>
      refine Tree.sorted_single (Tree.sorted_list_iff.2 fun item hitem => ?_)
      simp only [List.mem_cons, List.not_mem_nil, or_false] at hitem
      rcases hitem with rfl | rfl <;> trivial
  | condition name => exact Tree.sorted_single trivial
  | apply f arguments ih =>
      obtain ⟨-, hnormal⟩ := normal_apply_iff.1 h
      have hall : ∀ tree ∈ toTrees (bareCondition f arguments), tree.Sorted := by
        intro tree htree
        rw [toTrees_eq_map] at htree
        obtain ⟨v, hv, rfl⟩ := List.mem_map.1 htree
        rcases mem_bareCondition hv with ⟨name, rfl⟩ | hv
        · trivial
        · exact ih v hv (hnormal v hv)
      rw [toTree_apply]
      refine Tree.sorted_single ?_
      unfold callBody
      split
      · next tree htree =>
        rw [htree] at hall
        split_ifs
        · exact hall tree (List.mem_singleton_self _)
        · exact Tree.sorted_list_iff.2 hall
      · exact Tree.sorted_list_iff.2 hall

end Value

theorem Intrinsic.ofKey?_key (f : Intrinsic) : Intrinsic.ofKey? f.key = some f := by
  cases f <;> decide

theorem Intrinsic.keyStart_prefix_key (f : Intrinsic) :
    Intrinsic.keyStart.toList <+: f.key.toList := by
  rw [Intrinsic.key, String.toList_append]
  exact List.prefix_append ..

namespace Reading

open Value

section Keys

variable {key : String} {item : Tree} {f : Intrinsic}

/-- The keys of maps that are kept as they are. -/
theorem singleKey_eq_plain_iff :
    singleKey key item = .plain ↔
      key ≠ "Ref" ∧ ¬ Intrinsic.keyStart.toList <+: key.toList ∧
        (key = "Condition" → ∀ text, item ≠ .string text) := by
  have hiff : ∀ text : String, Intrinsic.keyStart.isPrefixOf text = true ↔
      Intrinsic.keyStart.toList <+: text.toList := fun _ => String.startsWith_string_iff
  unfold singleKey
  rw [← hiff]
  by_cases href : key = "Ref"
  · simp [href]
  by_cases hattr : key = "Fn::GetAtt"
  · have hstart : Intrinsic.keyStart.isPrefixOf "Fn::GetAtt" = true :=
      (hiff _).2 (by decide)
    simp [hattr, hstart]
  by_cases hcondition : key = "Condition"
  · have hstart : Intrinsic.keyStart.isPrefixOf "Condition" = false := by
      rw [← Bool.not_eq_true, hiff]
      decide
    subst hcondition
    cases item <;> simp [hstart]
  by_cases hstart : Intrinsic.keyStart.isPrefixOf key = true
  · cases Intrinsic.ofKey? key <;> simp [href, hattr, hcondition, hstart]
  · simp [href, hattr, hcondition, hstart]

theorem singleKey_key (f : Intrinsic) (item : Tree) :
    singleKey f.key item = .call f := by
  have hstart : Intrinsic.keyStart.isPrefixOf f.key = true :=
    String.startsWith_string_iff.2 f.keyStart_prefix_key
  have href : f.key ≠ "Ref" := by cases f <;> decide
  have hattr : f.key ≠ "Fn::GetAtt" := by cases f <;> decide
  have hcondition : f.key ≠ "Condition" := by cases f <;> decide
  simp [singleKey, href, hattr, hcondition, hstart, f.ofKey?_key]

theorem call_eq_ok_iff
    {path : String} {arguments : List Value} {v : Value} :
    call path f arguments = .ok v ↔
      callFault? f (withConditionName f arguments) = none ∧
        v = .apply f (withConditionName f arguments) := by
  unfold call Value.call
  rw [mapError_eq_ok_iff]
  cases callFault? f (withConditionName f arguments) with
  | none => simp [eq_comm]
  | some fault => simp

theorem attributePath_eq_ok
    {path : String} {v : Value} (h : attributePath path item = .ok v) :
    ∃ target name, v = .attr target name := by
  unfold attributePath at h
  split at h
  · split at h
    · cases h
      exact ⟨_, _, rfl⟩
    · cases h
  · split at h
    · cases h
    · split at h
      · cases h
        exact ⟨_, _, rfl⟩
      · cases h
  · cases h

end Keys

section ReadBack

/-- Items that are read back one by one are read back together. -/
theorem items_toTrees
    {values : List Value}
    (h : ∀ v ∈ values, ∀ path, value path v.toTree = .ok v) (path : String) (index : Nat) :
    items path index (toTrees values) = .ok values := by
  induction values generalizing index with
  | nil => rfl
  | cons head rest ih =>
      rw [toTrees, items, h head (List.mem_cons_self ..)]
      simp only
      rw [ih (fun v hv => h v (List.mem_cons_of_mem _ hv))]
      rfl

theorem entries_toTreeEntries
    {values : Entries Value}
    (h : ∀ entry ∈ values, ∀ path, value path entry.2.toTree = .ok entry.2)
    (path : String) :
    entries path (toTreeEntries values) = .ok values := by
  induction values with
  | nil => rfl
  | cons head rest ih =>
      rw [toTreeEntries, entries, h head (List.mem_cons_self ..)]
      simp only
      rw [ih (fun v hv => h v (List.mem_cons_of_mem _ hv))]
      rfl

/-- A call is read with the arguments that were written. -/
theorem value_callBody
    {f : Intrinsic} {arguments : List Value}
    (h : ∀ v ∈ arguments, ∀ path, value path v.toTree = .ok v)
    (hbare : f.isBare = true → arguments.length = 1)
    (hsub : f = .sub → arguments.length = 1 → ∃ text, arguments = [.string text])
    (path : String) :
    value path (.single f.key (callBody f (toTrees arguments))) =
      call (below path f.key) f arguments := by
  rw [Tree.single, value, singleKey_key]
  simp only
  by_cases hlist : (f.isBare || f = .sub) = false ∨ (toTrees arguments).length ≠ 1
  · have hnot : f.isBare = false := by
      cases hcase : f.isBare with
      | false => rfl
      | true =>
          have hone := hbare hcase
          rcases hlist with hlist | hlist
          · simp [hcase] at hlist
          · exact absurd (by simpa [toTrees_eq_map] using hone) hlist
    rw [callBody_eq_list hlist]
    simp [items_toTrees h, hnot]
  · rw [not_or, Bool.not_eq_false, not_not, toTrees_eq_map, List.length_map] at hlist
    obtain ⟨hone, hlength⟩ := hlist
    obtain ⟨v, rfl⟩ := List.length_eq_one_iff.1 hlength
    -- A single argument stands bare; it may be a list itself.
    have hv := h v (List.mem_cons_self ..)
    have hbody : callBody f (toTrees [v]) = v.toTree := by
      simp [toTrees, callBody, hone]
    rw [hbody]
    cases htree : v.toTree with
    | list trees =>
        obtain ⟨values, rfl, rfl⟩ := toTree_eq_list htree
        have hcase : f.isBare = true := by
          simp only [Bool.or_eq_true, decide_eq_true_eq] at hone
          rcases hone with hcase | hf
          · exact hcase
          · obtain ⟨text, htext⟩ := hsub hf rfl
            simp at htext
        have hvalues := hv (below path f.key)
        rw [htree, value_list, map_eq_ok_iff] at hvalues
        obtain ⟨found, hfound, heq⟩ := hvalues
        cases heq
        simp [hfound, hcase]
    | _ => simp [← htree, hone, hv]

theorem value_single
    {key : String} {v : Value} (hentry : PlainEntry key v)
    (h : ∀ path, value path v.toTree = .ok v) (path : String) :
    value path (Value.map [(key, v)]).toTree = .ok (.map [(key, v)]) := by
  have hkey : singleKey key v.toTree = .plain := by
    refine singleKey_eq_plain_iff.2
      ⟨hentry.ne_ref, hentry.no_function, fun hcondition text htext => ?_⟩
    have hnone := hentry.condition hcondition
    rw [toTree_eq_string htext] at hnone
    cases hnone
  rw [toTree, toTreeEntries, toTreeEntries, value, hkey]
  simp only
  rw [h]
  rfl

/-- **A normal value is read back from its tree.** -/
theorem value_toTree
    {v : Value} (h : v.Normal) : ∀ path, value path v.toTree = .ok v := by
  induction v using Value.induction with
  | null => intro path; rfl
  | bool b => intro path; rfl
  | number n => intro path; rfl
  | string text => intro path; rfl
  | list values ih =>
      rw [normal_list_iff] at h
      intro path
      rw [toTree, value_list, items_toTrees fun v hv => ih v hv (h v hv)]
      rfl
  | map values ih =>
      obtain ⟨-, hnormal, hplain⟩ := normal_map_iff.1 h
      have hback : ∀ entry ∈ values, ∀ path, value path entry.2.toTree = .ok entry.2 :=
        fun entry hentry => ih entry hentry (hnormal entry hentry)
      intro path
      -- Only a map with a single entry might be taken for something else.
      by_cases hsingle : ∃ key v, values = [(key, v)]
      · obtain ⟨key, v, rfl⟩ := hsingle
        exact value_single (hplain key v rfl) (hback (key, v) (List.mem_cons_self ..)) path
      · rw [toTree, value_map, entries_toTreeEntries hback]
        · rfl
        · intro key tree heq
          match values, heq with
          | [(name, v)], _ => exact hsingle ⟨name, v, rfl⟩
  | ref target => intro path; rfl
  | attr target name => intro path; rfl
  | condition name => intro path; rfl
  | apply f arguments ih =>
      obtain ⟨hfault, hnormal⟩ := normal_apply_iff.1 h
      intro path
      rw [toTree_apply, value_callBody]
      · rw [call_eq_ok_iff, withConditionName_bareCondition hfault]
        exact ⟨hfault, rfl⟩
      · intro v hv
        rcases mem_bareCondition hv with ⟨name, rfl⟩ | hv
        · intro path
          rfl
        · exact ih v hv (hnormal v hv)
      · intro hbare
        rw [length_bareCondition]
        exact length_of_isBare hbare hfault
      · rintro rfl hlength
        rw [length_bareCondition] at hlength
        obtain ⟨v, rfl⟩ := List.length_eq_one_iff.1 hlength
        cases v with
        | string text => exact ⟨text, rfl⟩
        | _ => simp [callFault?, Intrinsic.arity] at hfault

end ReadBack

section ReadValues

/-- What holds of every value that is read holds of all items. -/
theorem forall_of_items
    {motive : Value → Prop} {trees : List Tree} {path : String} {index : Nat}
    {values : List Value}
    (h : ∀ tree ∈ trees, ∀ path v, value path tree = .ok v → motive v)
    (hread : items path index trees = .ok values) : ∀ v ∈ values, motive v := by
  induction trees generalizing index values with
  | nil =>
      cases hread
      simp
  | cons head rest ih =>
      rw [items] at hread
      split at hread
      · cases hread
      · next v hv =>
        obtain ⟨others, hothers, rfl⟩ := map_eq_ok_iff.1 hread
        intro w hw
        rcases List.mem_cons.1 hw with heq | hw
        · exact heq ▸ h head (List.mem_cons_self ..) _ v hv
        · exact ih (fun tree htree => h tree (List.mem_cons_of_mem _ htree)) hothers w hw

/-- What holds of every value that is read holds of all entries, which keep
their names. -/
theorem forall_of_entries
    {motive : Value → Prop} {trees : Entries Tree} {path : String} {values : Entries Value}
    (h : ∀ entry ∈ trees, ∀ path v, value path entry.2 = .ok v → motive v)
    (hread : entries path trees = .ok values) :
    values.names = trees.names ∧ ∀ entry ∈ values, motive entry.2 := by
  induction trees generalizing values with
  | nil =>
      cases hread
      exact ⟨rfl, by simp⟩
  | cons head rest ih =>
      obtain ⟨name, tree⟩ := head
      rw [entries] at hread
      split at hread
      · cases hread
      · next v hv =>
        obtain ⟨others, hothers, rfl⟩ := map_eq_ok_iff.1 hread
        obtain ⟨hnames, hrest⟩ :=
          ih (fun entry hentry => h entry (List.mem_cons_of_mem _ hentry)) hothers
        refine ⟨congrArg (name :: ·) hnames, fun entry hentry => ?_⟩
        rcases List.mem_cons.1 hentry with heq | hentry
        · exact heq ▸ h _ (List.mem_cons_self ..) _ v hv
        · exact hrest entry hentry

/-- Only a string is read as a string. -/
theorem eq_string_of_value
    {path text : String} {tree : Tree} (h : value path tree = .ok (.string text)) :
    tree = .string text := by
  cases tree with
  | string given =>
      cases h
      rfl
  | list trees =>
      rw [value_list, map_eq_ok_iff] at h
      obtain ⟨_, -, heq⟩ := h
      cases heq
  | map trees =>
      by_cases hsingle : ∃ key item, trees = [(key, item)]
      · obtain ⟨key, item, rfl⟩ := hsingle
        rw [value] at h
        split at h
        · obtain ⟨_, -, heq⟩ := map_eq_ok_iff.1 h
          cases heq
        · obtain ⟨_, _, heq⟩ := attributePath_eq_ok h
          cases heq
        · obtain ⟨_, -, heq⟩ := map_eq_ok_iff.1 h
          cases heq
        · cases h
        · obtain ⟨_, -, heq⟩ := map_eq_ok_iff.1 h
          cases heq
        · split at h
          · split at h
            · cases h
            · exact nomatch (call_eq_ok_iff.1 h).2
          · split_ifs at h
            · split at h
              · cases h
              · exact nomatch (call_eq_ok_iff.1 h).2
            · cases h
      · rw [value_map fun key item heq => hsingle ⟨key, item, heq⟩, map_eq_ok_iff] at h
        obtain ⟨_, -, heq⟩ := h
        cases heq
  | _ => cases h

theorem mem_withConditionName
    {f : Intrinsic} {arguments : List Value} {v : Value}
    (h : v ∈ withConditionName f arguments) :
    (∃ name, v = .condition name) ∨ v ∈ arguments := by
  unfold withConditionName at h
  split at h
  · rcases List.mem_cons.1 h with heq | h
    · exact Or.inl ⟨_, heq⟩
    · exact Or.inr (List.mem_cons_of_mem _ h)
  · exact Or.inr h

theorem normal_of_call
    {path : String} {f : Intrinsic} {arguments : List Value} {v : Value}
    (h : ∀ argument ∈ arguments, argument.Normal) (hcall : call path f arguments = .ok v) :
    v.Normal := by
  obtain ⟨hfault, rfl⟩ := call_eq_ok_iff.1 hcall
  refine normal_apply_iff.2 ⟨hfault, fun argument hargument => ?_⟩
  rcases mem_withConditionName hargument with ⟨name, rfl⟩ | hargument
  · trivial
  · exact h argument hargument

/-- A map with a single entry is read as a reference, as a call, or, when the
key says neither, as the map that it is. -/
theorem normal_of_single
    {path key : String} {item : Tree} {v : Value}
    (hitem : ∀ path w, value path item = .ok w → w.Normal)
    (h : value path (.map [(key, item)]) = .ok v) : v.Normal := by
  rw [value] at h
  split at h
  case h_1 =>
    obtain ⟨target, -, rfl⟩ := map_eq_ok_iff.1 h
    trivial
  case h_2 =>
    obtain ⟨target, name, rfl⟩ := attributePath_eq_ok h
    trivial
  case h_3 =>
    obtain ⟨name, -, rfl⟩ := map_eq_ok_iff.1 h
    trivial
  case h_4 => cases h
  case h_5 hkey =>
    obtain ⟨w, hw, rfl⟩ := map_eq_ok_iff.1 h
    obtain ⟨href, hfunction, hcondition⟩ := singleKey_eq_plain_iff.1 hkey
    refine normal_map_iff.2 ⟨List.pairwise_singleton .., ?_, ?_⟩
    · intro entry hentry
      rw [List.mem_singleton.1 hentry]
      exact hitem _ w hw
    · rintro key' w' heq
      cases heq
      refine ⟨href, hfunction, fun hkey => ?_⟩
      cases w with
      | string text => exact absurd (eq_string_of_value hw) (hcondition hkey text)
      | _ => rfl
  case h_6 f hkey =>
    split at h
    · split at h
      · cases h
      · next values hvalues =>
        have hlist : (Value.list values).Normal :=
          hitem (below path key) _ (by rw [value_list, hvalues]; rfl)
        refine normal_of_call (fun argument hargument => ?_) h
        split_ifs at hargument
        · exact List.mem_singleton.1 hargument ▸ hlist
        · exact normal_list_iff.1 hlist argument hargument
    · split_ifs at h
      · split at h
        · cases h
        · next w hw =>
          refine normal_of_call (fun argument hargument => ?_) h
          exact List.mem_singleton.1 hargument ▸ hitem _ w hw
      · cases h

/-- **Every value that is read from a sorted tree is normal.** -/
theorem normal_of_value
    {tree : Tree} (hsorted : tree.Sorted) :
    ∀ path v, value path tree = .ok v → v.Normal := by
  induction tree using Tree.induction with
  | null =>
      intro path v h
      cases h
      trivial
  | bool b =>
      intro path v h
      cases h
      trivial
  | number n =>
      intro path v h
      cases h
      trivial
  | string text =>
      intro path v h
      cases h
      trivial
  | list trees ih =>
      rw [Tree.sorted_list_iff] at hsorted
      intro path v h
      rw [value_list, map_eq_ok_iff] at h
      obtain ⟨values, hvalues, rfl⟩ := h
      rw [normal_list_iff]
      exact forall_of_items (fun tree htree => ih tree htree (hsorted tree htree)) hvalues
  | map trees ih =>
      obtain ⟨hascending, hall⟩ := Tree.sorted_map_iff.1 hsorted
      intro path v h
      by_cases hsingle : ∃ key item, trees = [(key, item)]
      · obtain ⟨key, item, rfl⟩ := hsingle
        exact normal_of_single (ih (key, item) (List.mem_cons_self ..)
          (hall (key, item) (List.mem_cons_self ..))) h
      · have hmany : ∀ key item, trees ≠ [(key, item)] :=
          fun key item heq => hsingle ⟨key, item, heq⟩
        rw [value_map hmany, map_eq_ok_iff] at h
        obtain ⟨values, hvalues, rfl⟩ := h
        obtain ⟨hnames, hnormal⟩ := forall_of_entries
          (fun entry hentry => ih entry hentry (hall entry hentry)) hvalues
        refine normal_map_iff.2 ⟨?_, hnormal, ?_⟩
        · have hpairwise := hascending.names
          rw [← hnames] at hpairwise
          exact List.pairwise_map.1 hpairwise
        · rintro key w rfl
          match trees, hnames with
          | [(name, item)], _ => exact absurd rfl (hmany name item)

end ReadValues

end Reading
end CloudTemplate
