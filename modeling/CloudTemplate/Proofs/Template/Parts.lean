import CloudTemplate.Proofs.Template.Value
import CloudTemplate.Proofs.Tree.Place

/-!
# Reading the parts of a document

To read a document is to read each of its parts: the reader of the document
focuses on the reader of the part (`Outcome.Focus`), as what it reads before and
what it does afterwards do not depend on the part.

Main statements: this holds of every place with a value
(`Reading.ValuePlace.focus`), and of the export of an output
(`Reading.focus_export`).
-/

namespace CloudTemplate

open Outcome

namespace Reading

universe w

/-- The path of a place below the tree with the given path. -/
def placePath : String → List Tree.Step → String
  | path, [] => path
  | path, .item index :: rest => placePath (itemPath path index) rest
  | path, .entry name :: rest => placePath (below path name) rest

theorem placePath_append (path : String) (place rest : List Tree.Step) :
    placePath path (place ++ rest) = placePath (placePath path place) rest := by
  induction place generalizing path with
  | nil => rfl
  | cons step place ih => cases step <;> exact ih _

section Entries

variable {α σ : Type} {ι : Type w} {leaf : ι → Except Error α} {g : ι → Tree → Tree}
variable {name path : String} {child : Tree} {entries : Entries Tree}

/-- A loop over entries focuses on one of them. -/
theorem focus_foldlM {step : σ → String × Tree → Except Error σ}
    (hchild : Entries.lookup name entries = some child)
    (h : ∀ s, Focus leaf fun i => step s (name, g i child)) (s : σ) :
    Focus leaf fun i => (Entries.modifyFirst (g i) name entries).foldlM step s := by
  obtain ⟨front, back, -, hmodify⟩ := Entries.exists_modifyFirst hchild
  simp only [hmodify, List.foldlM_append, List.foldlM_cons]
  exact Focus.before _ fun t => (h t).after _

theorem items_cons (path : String) (index : Nat) (tree : Tree) (rest : List Tree) :
    items path index (tree :: rest) =
      value (itemPath path index) tree >>= fun v =>
        (items path (index + 1) rest).map (v :: ·) := by
  rw [items]
  cases value (itemPath path index) tree <;> rfl

theorem entries_cons (path : String) (entry : String × Tree) (rest : Entries Tree) :
    Reading.entries path (entry :: rest) =
      value (below path entry.1) entry.2 >>= fun v =>
        (Reading.entries path rest).map ((entry.1, v) :: ·) := by
  rw [Reading.entries]
  cases value (below path entry.1) entry.2 <;> rfl

theorem focus_items {trees : List Tree} {offset index : Nat}
    (hchild : trees[index]? = some child)
    (h : Focus leaf fun i => value (itemPath path (offset + index)) (g i child)) :
    Focus leaf fun i => items path offset (trees.modify index (g i)) := by
  induction trees generalizing offset index with
  | nil => simp at hchild
  | cons head rest ih =>
      cases index with
      | zero =>
          cases hchild
          simp only [List.modify_zero_cons, items_cons]
          exact h.after _
      | succ index =>
          simp only [List.modify_succ_cons, items_cons]
          refine Focus.before _ fun v => (ih hchild ?_).map _
          rwa [show offset + 1 + index = offset + (index + 1) by omega]

theorem focus_entries
    (hchild : Entries.lookup name entries = some child)
    (h : Focus leaf fun i => value (below path name) (g i child)) :
    Focus leaf fun i => Reading.entries path (Entries.modifyFirst (g i) name entries) := by
  obtain ⟨front, back, -, hmodify⟩ := Entries.exists_modifyFirst hchild
  simp only [hmodify]
  clear hmodify
  induction front with
  | nil =>
      simp only [List.nil_append, entries_cons]
      exact h.after _
  | cons head rest ih =>
      simp only [List.cons_append, entries_cons]
      exact Focus.before _ fun v => ih.map _

/-- The reader of a list or of a map with several entries reads what is in it. -/
theorem focus_child {tree : Tree} {step : Tree.Step} (hstep : tree.child? step = some child)
    (hmany : ∀ name only, tree ≠ .map [(name, only)]) (path : String) :
    Focus (value (placePath path [step])) fun new => value path (tree.replaceAt [step] new) := by
  rcases Tree.child?_eq_some_iff.1 hstep with
    ⟨trees, index, rfl, rfl, hindex⟩ | ⟨entries, name, rfl, rfl, hlookup⟩
  · simp only [Tree.replaceAt_list, value_list]
    refine (focus_items hindex ?_).map _
    rw [Nat.zero_add]
    exact .here
  · have hread : ∀ g, value path (.map (Entries.modifyFirst g name entries)) =
        (Reading.entries path (Entries.modifyFirst g name entries)).map .map := by
      refine fun g => value_map fun key item heq => ?_
      have hlength := congrArg List.length heq
      rw [Entries.length_modifyFirst] at hlength
      obtain ⟨⟨only, other⟩, rfl⟩ := List.length_eq_one_iff.1 hlength
      exact hmany only other rfl
    simp only [Tree.replaceAt_map, hread]
    have hvalue : Focus (value (below path name))
        fun new => value (below path name) (child.replaceAt [] new) := .here
    exact (focus_entries hlookup hvalue).map _

theorem focus_table {β : Type} (read : String → Tree → Except Error β)
    (hchild : Entries.lookup name entries = some child)
    (h : Focus leaf fun i => read name (g i child)) :
    Focus leaf fun i => table read (Entries.modifyFirst (g i) name entries) :=
  focus_foldlM hchild (fun found => h.after fun item => .ok (found.insert name item)) _

end Entries

section Sections

variable {α : Type} {ι : Type w} {leaf : ι → Except Error α} {g : ι → Tree → Tree}
variable {id name path : String} {child : Tree} {entries : Entries Tree}

theorem focus_ofTree
    (hchild : Entries.lookup name entries = some child)
    (h : ∀ t, Focus leaf fun i => templateSection t name (g i child)) :
    Focus leaf fun i => Template.ofTree (.map (Entries.modifyFirst (g i) name entries)) := by
  simp only [Template.ofTree, Entries.names_modifyFirst, Entries.hasName_modifyFirst]
  split_ifs
  · exact Focus.error _ _
  · cases (Entries.names entries).find? fun name => !templateSections.contains name with
    | some unknown => exact Focus.error _ _
    | none => exact (focus_foldlM hchild h _).after _

/-- A section with declarations focuses on one that is no loop. -/
theorem focus_declarations {β : Type} (read : String → Tree → Except Error β)
    (hloop : loopStart.isPrefixOf id = false) (hchild : Entries.lookup id entries = some child)
    (h : Focus leaf fun i => read id (g i child)) (name : String)
    (next : NameTable β → Except Error Template) :
    Focus leaf fun i => declarations name (.map (Entries.modifyFirst (g i) id entries)) >>=
      fun found => table read found >>= next := by
  let keep : String → Bool := fun name => !loopStart.isPrefixOf name
  have hkeep : keep id = true := congrArg not hloop
  have hlookup : Entries.lookup id (entries.filter fun entry => keep entry.1) = some child :=
    (Entries.lookup_filter hkeep entries).trans hchild
  have hfilter : ∀ i, declarations name (.map (Entries.modifyFirst (g i) id entries)) =
      .ok (Entries.modifyFirst (g i) id (entries.filter fun entry => keep entry.1)) :=
    fun i => congrArg Except.ok (Entries.filter_modifyFirst hkeep (g i) entries)
  simp only [hfilter, ok_bind]
  exact (focus_table read hlookup h).after next

theorem focus_resource
    (hchild : Entries.lookup "Properties" entries = some child)
    (h : ∀ r, Focus leaf fun i =>
      resourceAttribute ("Resources." ++ id) r "Properties" (g i child)) :
    Focus leaf fun i => resource id (.map (Entries.modifyFirst (g i) "Properties" entries)) := by
  have htype : ¬ "Type" = "Properties" := by decide
  simp only [resource, Entries.names_modifyFirst, Entries.lookup_modifyFirst, htype, if_false]
  cases (Entries.names entries).find? fun name => !resourceAttributes.contains name with
  | some unknown => exact Focus.error _ _
  | none =>
      cases Entries.lookup "Type" entries with
      | none => exact Focus.error _ _
      | some tree => exact Focus.before _ fun typeName => focus_foldlM hchild h _

/-- The value of an output is read before its attributes, which pass it over. -/
theorem focus_outputValue
    (hchild : Entries.lookup "Value" entries = some child)
    (h : Focus leaf fun i => value (below ("Outputs." ++ id) "Value") (g i child)) :
    Focus leaf fun i => output id (.map (Entries.modifyFirst (g i) "Value" entries)) := by
  obtain ⟨front, back, -, hmodify⟩ := Entries.exists_modifyFirst hchild
  have hpass : ∀ path o tree, outputAttribute path o "Value" tree = .ok o := fun _ _ _ => rfl
  simp only [output, Entries.lookup_modifyFirst, hchild, if_true, Option.map_some]
  simp only [hmodify, List.foldlM_append, List.foldlM_cons, hpass, ok_bind]
  exact h.after _

theorem focus_outputExport
    (hchild : Entries.lookup "Export" entries = some child)
    (h : ∀ o, Focus leaf fun i => outputAttribute ("Outputs." ++ id) o "Export" (g i child)) :
    Focus leaf fun i => output id (.map (Entries.modifyFirst (g i) "Export" entries)) := by
  have hvalue : ¬ "Value" = "Export" := by decide
  simp only [output, Entries.lookup_modifyFirst, hvalue, if_false]
  cases Entries.lookup "Value" entries with
  | none => exact Focus.error _ _
  | some tree => exact Focus.before _ fun found => focus_foldlM hchild h _

theorem focus_exportName
    (hchild : Entries.lookup "Name" entries = some child)
    (h : Focus leaf fun i => value (below (below path "Export") "Name") (g i child)) (o : Output) :
    Focus leaf fun i =>
      outputAttribute path o "Export" (.map (Entries.modifyFirst (g i) "Name" entries)) := by
  simp only [outputAttribute, mapping, ok_bind, Entries.lookup_modifyFirst, hchild, if_true,
    Option.map_some]
  exact h.after _

end Sections

/-- The places of documents that hold values, with their paths. -/
inductive ValuePlace : String → List Tree.Step → Prop
  | condition (name : String) :
      ValuePlace ("Conditions." ++ name) [.entry "Conditions", .entry name]
  | property {id : String} (hloop : loopStart.isPrefixOf id = false) (name : String) :
      ValuePlace (below (below ("Resources." ++ id) "Properties") name)
        [.entry "Resources", .entry id, .entry "Properties", .entry name]
  | outputValue {id : String} (hloop : loopStart.isPrefixOf id = false) :
      ValuePlace (below ("Outputs." ++ id) "Value")
        [.entry "Outputs", .entry id, .entry "Value"]
  | exportName {id : String} (hloop : loopStart.isPrefixOf id = false) :
      ValuePlace (below (below ("Outputs." ++ id) "Export") "Name")
        [.entry "Outputs", .entry id, .entry "Export", .entry "Name"]

section Documents

variable {doc tree : Tree} {path id : String} {place : List Tree.Step}

/-- The reader of the document reads the values in it. -/
theorem ValuePlace.focus (hplace : ValuePlace path place) (h : doc.at? place = some tree) :
    Focus (value path) fun new => Template.ofTree (doc.replaceAt place new) := by
  have hvalue : ∀ (path : String) (tree : Tree),
      Focus (value path) fun new => value path (tree.replaceAt [] new) := fun _ _ => .here
  cases hplace with
  | condition name =>
      obtain ⟨sections, conditions, rfl, hsection, h⟩ := Tree.exists_of_at?_entry h
      obtain ⟨entries, tree, rfl, hentry, h⟩ := Tree.exists_of_at?_entry h
      refine focus_ofTree hsection fun t => ?_
      exact (focus_table (fun name => value ("Conditions." ++ name)) hentry
        (hvalue _ _)).after _
  | @property id hloop name =>
      obtain ⟨sections, resources, rfl, hsection, h⟩ := Tree.exists_of_at?_entry h
      obtain ⟨entries, attributes, rfl, hresource, h⟩ := Tree.exists_of_at?_entry h
      obtain ⟨attributes, properties, rfl, hattribute, h⟩ := Tree.exists_of_at?_entry h
      obtain ⟨properties, tree, rfl, hproperty, h⟩ := Tree.exists_of_at?_entry h
      refine focus_ofTree hsection fun t => ?_
      refine focus_declarations resource hloop hresource ?_ _ _
      refine focus_resource hattribute fun r => ?_
      exact (focus_table (fun name => value (below (below ("Resources." ++ id) "Properties") name))
        hproperty (hvalue _ _)).after _
  | @outputValue id hloop =>
      obtain ⟨sections, outputs, rfl, hsection, h⟩ := Tree.exists_of_at?_entry h
      obtain ⟨entries, attributes, rfl, houtput, h⟩ := Tree.exists_of_at?_entry h
      obtain ⟨attributes, tree, rfl, hattribute, h⟩ := Tree.exists_of_at?_entry h
      refine focus_ofTree hsection fun t => ?_
      refine focus_declarations output hloop houtput ?_ _ _
      exact focus_outputValue hattribute (hvalue _ _)
  | @exportName id hloop =>
      obtain ⟨sections, outputs, rfl, hsection, h⟩ := Tree.exists_of_at?_entry h
      obtain ⟨entries, attributes, rfl, houtput, h⟩ := Tree.exists_of_at?_entry h
      obtain ⟨attributes, exported, rfl, hattribute, h⟩ := Tree.exists_of_at?_entry h
      obtain ⟨exported, tree, rfl, hname, h⟩ := Tree.exists_of_at?_entry h
      refine focus_ofTree hsection fun t => ?_
      refine focus_declarations output hloop houtput ?_ _ _
      refine focus_outputExport hattribute fun o => ?_
      exact focus_exportName hname (hvalue _ _) o

/-- The place of the export of an output. -/
def exportPlace (id : String) : List Tree.Step :=
  [.entry "Outputs", .entry id, .entry "Export"]

/-- What the reader looks at in an export. -/
def exportName? (id : String) (tree : Tree) : Except Error (Option Tree) :=
  (mapping (below ("Outputs." ++ id) "Export") tree).map (Entries.lookup "Name")

/-- What the reader makes of it. -/
def withExportName (id : String) (o : Output) : Option Tree → Except Error Output
  | none => .error (.atPath (below ("Outputs." ++ id) "Export") .missingExportName)
  | some name =>
      value (below (below ("Outputs." ++ id) "Export") "Name") name >>= fun v =>
        .ok { o with exportName := some v }

theorem outputAttribute_eq_bind (id : String) (o : Output) (tree : Tree) :
    outputAttribute ("Outputs." ++ id) o "Export" tree =
      exportName? id tree >>= withExportName id o := by
  cases tree with
  | map entries =>
      simp only [outputAttribute, exportName?, mapping, ok_bind, map_ok]
      cases Entries.lookup "Name" entries with
      | none => rfl
      | some name => rfl
  | _ => rfl

/-- The reader of the document looks only at the name of an export. -/
theorem focus_export
    (hloop : loopStart.isPrefixOf id = false) (h : doc.at? (exportPlace id) = some tree) :
    Focus (exportName? id) fun new => Template.ofTree (doc.replaceAt (exportPlace id) new) := by
  obtain ⟨sections, outputs, rfl, hsection, h⟩ := Tree.exists_of_at?_entry h
  obtain ⟨entries, attributes, rfl, houtput, h⟩ := Tree.exists_of_at?_entry h
  obtain ⟨attributes, exported, rfl, hattribute, h⟩ := Tree.exists_of_at?_entry h
  refine focus_ofTree hsection fun t => ?_
  refine focus_declarations output hloop houtput ?_ _ _
  refine focus_outputExport hattribute fun o => ?_
  simp only [outputAttribute_eq_bind]
  exact Focus.here.after _

end Documents

end Reading
end CloudTemplate
