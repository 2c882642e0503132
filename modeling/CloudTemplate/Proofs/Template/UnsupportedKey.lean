import CloudTemplate.Proofs.Template.Parts

/-!
# Keys of unsupported functions

A map that stands alone with the key of a function is a call, so when there is
no such function the document is refused.  It is refused with the fault of this
very map or with one that was found before: one that is found whatever the map
holds (`Outcome.Refuses`).

Main statement: `Template.ofTree_unsupported`.  It does not hold of a key with
others beside it (`Template.not_forall_ofTree_unsupported`).
-/

namespace CloudTemplate

open Outcome

namespace Reading

/-- The key starts like that of a function, and there is none with it. -/
structure Unsupported (key : String) : Prop where
  start : Intrinsic.keyStart.toList <+: key.toList
  ne_attr : key ≠ "Fn::GetAtt"
  ne_key : ∀ f : Intrinsic, f.key ≠ key

variable {path key name : String} {child item : Tree} {place : List Tree.Step}
variable {entries : Entries Tree} {bad : Error}

theorem Unsupported.singleKey_eq (h : Unsupported key) (item : Tree) :
    singleKey key item = .unsupported := by
  have href : key ≠ "Ref" := by
    rintro rfl
    exact absurd h.start (by decide)
  have hcondition : key ≠ "Condition" := by
    rintro rfl
    exact absurd h.start (by decide)
  have hstart : Intrinsic.keyStart.isPrefixOf key = true := String.startsWith_string_iff.2 h.start
  have hnone : Intrinsic.ofKey? key = none := by
    rw [Intrinsic.ofKey?, List.find?_eq_none]
    intro f _
    simpa using h.ne_key f
  simp [singleKey, href, h.ne_attr, hcondition, hstart, hnone]

section Single

variable {given : Entries Tree}

theorem ne_string_of_at? (h : child.at? place = some (.map given)) (text : String) :
    child ≠ .string text := by
  rcases Tree.exists_replaceAt h with ⟨_, _, rfl, -⟩ | ⟨_, _, rfl, -⟩
  · nofun
  · nofun

theorem ne_string_replaceAt
    (h : child.at? place = some (.map given)) (other : Entries Tree) (text : String) :
    child.replaceAt place (.map other) ≠ .string text :=
  ne_string_of_at? (Tree.at?_replaceAt h (.map other)) text

theorem string_eq_error (path : String) (h : ∀ text, child ≠ .string text) :
    string path child = .error (.atPath path (.wrongKind "a string" child.kind)) := by
  cases child with
  | string text => exact absurd rfl (h text)
  | _ => rfl

theorem singleKey_congr
    {other : Tree} (h : ∀ text, child ≠ .string text) (hother : ∀ text, other ≠ .string text) :
    singleKey key child = singleKey key other := by
  unfold singleKey
  cases child <;> cases other <;> simp_all

/-- What should be a string is refused for its kind. -/
theorem refuses_string (h : child.at? place = some (.map given)) (path : String) :
    Refuses bad (string path child)
      fun other => string path (child.replaceAt place (.map other)) := by
  refine .of_forall (string_eq_error path (ne_string_of_at? h)) fun other => ?_
  rw [string_eq_error path (ne_string_replaceAt h other), Tree.kind_replaceAt h]

/-- The second item of a reference to an attribute. -/
def attributeName (path target : String) : Tree → Except Error Value
  | .string name => .ok (.attr target name)
  | other => .error (.atPath (itemPath path 1) (.attributeNotLiteral other.kind))

theorem attributeName_eq_error (path target : String) (h : ∀ text, child ≠ .string text) :
    attributeName path target child =
      .error (.atPath (itemPath path 1) (.attributeNotLiteral child.kind)) := by
  cases child with
  | string text => exact absurd rfl (h text)
  | _ => rfl

theorem attributePath_pair (path : String) (target name : Tree) :
    attributePath path (.list [target, name]) =
      string (itemPath path 0) target >>= fun target => attributeName path target name := by
  rw [attributePath]
  cases string (itemPath path 0) target with
  | error e => rfl
  | ok text => cases name <;> rfl

theorem attributePath_of_length
    {items : List Tree} (path : String) (h : items.length ≠ 2) :
    attributePath path (.list items) =
      wrongKind path "'Resource.Attribute' or [Resource, Attribute]" (.list items) := by
  unfold attributePath
  split
  · next heq => cases heq
  · next heq =>
    cases heq
    exact absurd rfl h
  · rfl

/-- A reference to an attribute is refused for the kinds of what it holds. -/
theorem refuses_attributePath (h : child.at? place = some (.map given)) (path : String) :
    Refuses bad (attributePath path child)
      fun other => attributePath path (child.replaceAt place (.map other)) := by
  cases place with
  | nil =>
      cases h
      exact .of_forall rfl fun _ => rfl
  | cons step rest =>
      obtain ⟨inner, hstep, hinner⟩ := Tree.at?_cons_eq_some_iff.1 h
      rcases Tree.child?_eq_some_iff.1 hstep with
        ⟨items, index, rfl, rfl, hindex⟩ | ⟨entries, name, rfl, rfl, -⟩
      · simp only [Tree.replaceAt_list]
        by_cases hlength : items.length = 2
        · obtain ⟨target, name, rfl⟩ := List.length_eq_two.1 hlength
          match index, hindex with
          | 0, hindex =>
              cases hindex
              simp only [List.modify_zero_cons, attributePath_pair]
              exact (refuses_string hinner _).bind _
          | 1, hindex =>
              cases hindex
              simp only [List.modify_succ_cons, List.modify_zero_cons, attributePath_pair]
              cases string (itemPath path 0) target with
              | error e => exact .of_forall rfl fun _ => rfl
              | ok text =>
                  refine .of_forall
                    (attributeName_eq_error path text (ne_string_of_at? hinner)) fun other => ?_
                  rw [ok_bind, attributeName_eq_error path text (ne_string_replaceAt hinner other),
                    Tree.kind_replaceAt hinner]
        · refine .of_forall (attributePath_of_length path hlength) fun other => ?_
          exact attributePath_of_length path (by rwa [List.length_modify])
      · exact .of_forall rfl fun _ => rfl

/-- A map with a single entry, in which the fault lies below. -/
theorem refuses_single
    (h : child.at? place = some (.map given))
    (hvalue : Refuses bad (value (below path name) child)
      fun other => value (below path name) (child.replaceAt place (.map other))) :
    Refuses bad (value path (.map [(name, child)]))
      fun other => value path (.map [(name, child.replaceAt place (.map other))]) := by
  have hkey : ∀ other, singleKey name (child.replaceAt place (.map other)) =
      singleKey name child :=
    fun other => singleKey_congr (ne_string_replaceAt h other) (ne_string_of_at? h)
  simp only [value, hkey]
  cases singleKey name child with
  | ref => exact Refuses.map_iff.2 (refuses_string h _)
  | attr => exact refuses_attributePath h _
  | condition => exact Refuses.map_iff.2 (refuses_string h _)
  | unsupported => exact .of_forall rfl fun _ => rfl
  | plain => exact Refuses.map_iff.2 hvalue
  | call f =>
      rcases Tree.exists_replaceAt h with
        ⟨entries, change, rfl, hother⟩ | ⟨items, change, rfl, hother⟩
      · simp only [hother] at hvalue ⊢
        split_ifs
        · exact hvalue.next (fun e he => by rw [he]) fun i e he => by simp only [he]
        · exact .of_forall rfl fun _ => rfl
      · simp only [hother, value_list] at hvalue ⊢
        exact (Refuses.map_iff.1 hvalue).next (fun e he => by rw [he]) fun i e he => by
          simp only [he]

end Single

/-- The reader of a value refuses a map that stands alone with the key of no
function, however deep it lies, unless another fault is found first. -/
theorem refuses_value (hkey : Unsupported key) {tree : Tree}
    (h : tree.at? place = some (.map [(key, item)])) (path : String) :
    Refuses (.unsupportedIntrinsic key (below (placePath path place) key)) (value path tree)
      fun other => value path (tree.replaceAt place (.map other)) := by
  induction place generalizing tree path with
  | nil =>
      cases h
      refine ⟨_, ?_, Or.inl rfl⟩
      rw [value, hkey.singleKey_eq]
      rfl
  | cons step rest ih =>
      obtain ⟨child, hstep, hchild⟩ := Tree.at?_cons_eq_some_iff.1 h
      have hvalue := ih hchild (placePath path [step])
      rw [← placePath_append] at hvalue
      by_cases hsingle : ∃ name only, tree = .map [(name, only)]
      · obtain ⟨name, only, rfl⟩ := hsingle
        rcases Tree.child?_eq_some_iff.1 hstep with
          ⟨_, _, hlist, -, -⟩ | ⟨entries, other, hmap, rfl, hlookup⟩
        · cases hlist
        · cases hmap
          have hfound : name = other ∧ only = child := by
            simpa [Entries.lookup] using hlookup
          obtain ⟨rfl, rfl⟩ := hfound
          simp only [Tree.replaceAt_map, Entries.modifyFirst, if_true]
          exact refuses_single hchild hvalue
      · have hat : tree.at? [step] = some child :=
          Tree.at?_cons_eq_some_iff.2 ⟨child, hstep, rfl⟩
        have hfocus := focus_child hstep (fun name only heq => hsingle ⟨name, only, heq⟩) path
        have hrefuses := hfocus.refuses hvalue
        rw [Tree.replaceAt_self hat] at hrefuses
        simp only [← Tree.replaceAt_append hat] at hrefuses
        exact hrefuses

end Reading

namespace Template

open Reading

variable {doc item : Tree} {path key : String} {place inner : List Tree.Step}

/-- **A map that stands alone with the key of no function is refused**, at any
depth of a value of the document.  The fault is that of the key, unless one is
found before; such a fault is found whatever the map holds. -/
theorem ofTree_unsupported
    (hplace : ValuePlace path place) (hkey : Unsupported key)
    (h : doc.at? (place ++ inner) = some (.map [(key, item)])) :
    ∃ e, ofTree doc = .error e ∧
      (e = .unsupportedIntrinsic key (below (placePath path inner) key) ∨
        ∀ other, ofTree (doc.replaceAt (place ++ inner) (.map other)) = .error e) := by
  rw [Tree.at?_append] at h
  obtain ⟨tree, htree, hinner⟩ := Option.bind_eq_some_iff.1 h
  have hrefuses := (hplace.focus htree).refuses (refuses_value hkey hinner path)
  rw [Tree.replaceAt_self htree] at hrefuses
  simp only [← Tree.replaceAt_append htree] at hrefuses
  exact hrefuses

theorem unsupported_bogus : Unsupported "Fn::Bogus" where
  start := by decide
  ne_attr := by decide
  ne_key f := by cases f <;> decide

theorem ofTree_unsupported_property :
    ∃ e, ofTree (.map [("Resources", .map [("A", .map [("Type", .string "T"), ("Properties",
        .map [("P", .list [.null, .map [("Fn::Bogus", .bool true)]])])])])]) = .error e ∧
      (e = .unsupportedIntrinsic "Fn::Bogus" "Resources.A.Properties.P[1].Fn::Bogus" ∨
        ∀ other, ofTree (.map [("Resources", .map [("A", .map [("Type", .string "T"),
          ("Properties", .map [("P", .list [.null, .map other])])])])]) = .error e) := by
  have hloop : loopStart.isPrefixOf "A" = false := by decide +kernel
  exact @ofTree_unsupported _ _ _ _ _ [.item 1] (.property hloop "P") unsupported_bogus rfl

/-- A map with two entries below a property. -/
def unknownBeside : Tree :=
  .map [("Resources", .map [("A", .map [("Type", .string "T"), ("Properties",
    .map [("P", .list [.null, .map [("Fn::Bogus", .bool true), ("X", .null)]])])])])]

/-- With another key beside it, the key of no function is kept as data. -/
theorem not_forall_ofTree_unsupported :
    ¬ ∀ (doc item : Tree) (entries : Entries Tree) (path key : String)
        (place inner : List Tree.Step),
      ValuePlace path place → Unsupported key →
        doc.at? (place ++ inner) = some (.map entries) → (key, item) ∈ entries →
        ∃ e, ofTree doc = .error e := by
  intro h
  have hloop : loopStart.isPrefixOf "A" = false := by decide +kernel
  have hplace : ValuePlace _ [.entry "Resources", .entry "A", .entry "Properties", .entry "P"] :=
    .property hloop "P"
  obtain ⟨e, he⟩ := h unknownBeside _ _ _ _ _ [.item 1] hplace unsupported_bogus rfl
    (List.mem_cons_self ..)
  have hok : (ofTree unknownBeside).isOk = true := by decide +kernel
  rw [he] at hok
  cases hok

end Template
end CloudTemplate
