import CloudTemplate.Proofs.Graph.Outline

/-!
# Outlines in writing

The text of an outline is its lines, one behind the other, each ended by a line
break (`Writes`).  What leads to the node of a line is drawn from the
dependencies of the nodes above it (`Leads`): an elbow for the last dependency of
a node and a tee for any other, and on each level above a bar where a later
dependency follows.  Behind the node stand the words for its mark (`Words`).

`OutlineEntry.readText` goes the other way and reads depth, node and mark of every
line from the text.  The first line is that of the root; in any other line the
first elbow or tee ends what leads to the node, whatever the name of the node
begins with.  The end of a name is told only when the name has no line break in
it and does not end like a mark (`Legible`).

Main statements: a drawing is written as its text (`Draws.writes`), and its lines
are read from the text when the names are legible (`Writes.readText_eq`).
-/

namespace CloudTemplate

section Suffixes

variable {text rest suffix : List Char}

theorem dropSuffix?_eq_some : text.dropSuffix? suffix = some rest ↔ text = rest ++ suffix := by
  rw [List.dropSuffix?_eq_some_iff]
  simp

theorem dropSuffix?_eq_none (h : ¬ suffix <:+ text) : text.dropSuffix? suffix = none :=
  Option.eq_none_iff_forall_ne_some.2 fun rest hrest =>
    h ⟨rest, (dropSuffix?_eq_some.1 hrest).symm⟩

end Suffixes

/-- A name whose end can be told in an outline. -/
structure Legible (id : String) : Prop where
  unbroken : '\n' ∉ id.toList
  not_circular : ¬ " (circular reference)".toList <:+ id.toList
  not_alreadyShown : ¬ " (already shown)".toList <:+ id.toList

instance (id : String) : Decidable (Legible id) :=
  decidable_of_iff
    ('\n' ∉ id.toList ∧ ¬ " (circular reference)".toList <:+ id.toList ∧
      ¬ " (already shown)".toList <:+ id.toList)
    ⟨fun h => ⟨h.1, h.2.1, h.2.2⟩, fun h => ⟨h.1, h.2, h.3⟩⟩

/-- The words behind the node of a line. -/
inductive OutlineMark.Words : OutlineMark → String → Prop
  | expanded : Words .expanded ""
  | circular : Words .circular " (circular reference)"
  | alreadyShown : Words .alreadyShown " (already shown)"

/-- What is read of a line. -/
structure OutlineEntry where
  depth : Nat
  id : String
  mark : OutlineMark
deriving DecidableEq, Repr

/-- What a line says. -/
def OutlineLine.entry (line : OutlineLine) : OutlineEntry :=
  ⟨line.place.depth, line.place.id, line.mark⟩

namespace OutlineEntry

/-- The levels above a line, counted by what leads to its node, and the rest of the
line. -/
def readLead : List Char → Nat × List Char
  | a :: b :: c :: d :: rest =>
      let piece := String.ofList [a, b, c, d]
      if piece = "└── " ∨ piece = "├── " then (1, rest)
      else if piece = "    " ∨ piece = "│   " then
        ((readLead rest).1 + 1, (readLead rest).2)
      else (0, a :: b :: c :: d :: rest)
  | text => (0, text)

/-- A node and the mark behind it. -/
def readNode (depth : Nat) (text : List Char) : OutlineEntry :=
  match text.dropSuffix? " (circular reference)".toList with
  | some id => ⟨depth, String.ofList id, .circular⟩
  | none =>
      match text.dropSuffix? " (already shown)".toList with
      | some id => ⟨depth, String.ofList id, .alreadyShown⟩
      | none => ⟨depth, String.ofList text, .expanded⟩

/-- A line below the first. -/
def readLine (text : List Char) : OutlineEntry :=
  readNode (readLead text).1 (readLead text).2

/-- The lines of a text in which a line break ends each, when the given characters
of the first line are read already, the last one first. -/
def endedLines (seen : List Char) : List Char → List (List Char)
  | [] => []
  | c :: rest =>
      if c = '\n' then seen.reverse :: endedLines [] rest else endedLines (c :: seen) rest

/-- The lines of an outline, read from its text. -/
def readText (text : String) : List OutlineEntry :=
  match endedLines [] text.toList with
  | [] => []
  | first :: rest => readNode 0 first :: rest.map readLine

variable {seen line text : List Char}

theorem endedLines_append (hline : '\n' ∉ line) :
    endedLines seen (line ++ '\n' :: text) = (seen.reverse ++ line) :: endedLines [] text := by
  induction line generalizing seen with
  | nil => simp [endedLines]
  | cons c line ih =>
      obtain ⟨hc, hline⟩ := not_or.1 (mt List.mem_cons.2 hline)
      rw [List.cons_append, endedLines, if_neg (Ne.symm hc), ih hline]
      simp

end OutlineEntry

open OutlineEntry (readLead readNode readLine readText endedLines)

theorem OutlineMark.Words.unbroken {mark : OutlineMark} {words : String} (h : mark.Words words) :
    '\n' ∉ words.toList := by
  cases h <;> decide

/-- The mark is told from the words, and what is left is the name. -/
theorem OutlineMark.Words.readNode_eq
    {mark : OutlineMark} {words id : String} (h : mark.Words words) (hid : Legible id)
    (depth : Nat) : readNode depth (id.toList ++ words.toList) = ⟨depth, id, mark⟩ := by
  unfold readNode
  cases h with
  | expanded =>
      rw [String.toList_empty, List.append_nil, dropSuffix?_eq_none hid.not_circular,
        dropSuffix?_eq_none hid.not_alreadyShown]
      simp
  | circular => simp [dropSuffix?_eq_some.2]
  | alreadyShown =>
      -- No text ends in both of the words.
      have hother : ¬ " (circular reference)".toList <:+
          id.toList ++ " (already shown)".toList := fun hsuffix =>
        absurd (List.suffix_of_suffix_length_le (List.suffix_append ..) hsuffix (by decide))
          (by decide)
      rw [dropSuffix?_eq_none hother, dropSuffix?_eq_some.2 rfl]
      simp

namespace OutlinePlace

/-- What the lines below a place begin with. -/
def margin (branch : List Bool) : String :=
  String.join (branch.map fun isLast => if isLast then "    " else "│   ")

theorem margin_append (branch : List Bool) (isLast : Bool) :
    margin (branch ++ [isLast]) = margin branch ++ if isLast then "    " else "│   " := by
  simp [margin]

theorem indent_append (branch : List Bool) (isLast : Bool) :
    indent (branch ++ [isLast]) = margin branch ++ if isLast then "└── " else "├── " := by
  induction branch with
  | nil => cases isLast <;> rfl
  | cons above branch ih =>
      have hindent : indent (above :: (branch ++ [isLast])) =
          (if above then "    " else "│   ") ++ indent (branch ++ [isLast]) := by
        cases above <;> simp [indent]
      have hmargin : margin (above :: branch) =
          (if above then "    " else "│   ") ++ margin branch := by
        simp [margin]
      rw [List.cons_append, hindent, ih, hmargin, String.append_assoc]

/-- A place below another is in the last branch when its node is the last one
there. -/
theorem branch_of_mem_below
    {place other : OutlinePlace} {ids : List String} (hnodup : ids.Nodup)
    (h : other ∈ place.below ids) :
    other.branch = place.branch ++ [decide (ids.getLast? = some other.id)] := by
  induction ids with
  | nil => cases h
  | cons id ids ih =>
      obtain ⟨hid, hnodup⟩ := List.nodup_cons.1 hnodup
      rcases List.mem_cons.1 h with rfl | hmem
      · cases ids with
        | nil => simp
        | cons next ids =>
            have hother : (next :: ids).getLast? ≠ some id := fun hlast =>
              hid (List.mem_of_getLast? hlast)
            simp [List.getLast?_cons_cons, hother]
      · cases ids with
        | nil => cases hmem
        | cons next ids => rw [ih hnodup hmem, List.getLast?_cons_cons]

end OutlinePlace

theorem OutlineMark.words_text (mark : OutlineMark) : mark.Words mark.text := by
  cases mark <;> constructor

namespace DependencyGraph

/-- What leads to a node below the given ones, nearest first, and what the lines
below the node begin with.  The root has nothing before it, nor have the lines
directly below it more than their own elbow or tee. -/
inductive Leads (g : DependencyGraph) : String → List String → String → String → Prop
  | root (id : String) : Leads g id [] "" ""
  | last
      {parent id : String} {ancestors : List String} {lead margin : String}
      (hparent : Leads g parent ancestors lead margin)
      (hid : (g.dependencies parent).getLast? = some id) :
      Leads g id (parent :: ancestors) (margin ++ "└── ") (margin ++ "    ")
  | inner
      {parent id : String} {ancestors : List String} {lead margin : String}
      (hparent : Leads g parent ancestors lead margin)
      (hid : (g.dependencies parent).getLast? ≠ some id) :
      Leads g id (parent :: ancestors) (margin ++ "├── ") (margin ++ "│   ")

/-- The text is the lines, each as what leads to its node, the node, the words for
its mark and a line break. -/
inductive Writes (g : DependencyGraph) : List OutlineLine → String → Prop
  | nil : Writes g [] ""
  | cons
      {line : OutlineLine} {lines : List OutlineLine} {lead margin words text : String}
      (hlead : g.Leads line.place.id line.place.ancestors lead margin)
      (hwords : line.mark.Words words)
      (hlines : Writes g lines text) :
      Writes g (line :: lines) (lead ++ line.place.id ++ words ++ "\n" ++ text)

variable {g : DependencyGraph} {root : String} {lines : List OutlineLine}

section Reading

variable {id lead margin text : String} {ancestors : List String}

theorem Leads.unbroken (h : g.Leads id ancestors lead margin) :
    '\n' ∉ lead.toList ∧ '\n' ∉ margin.toList := by
  induction h with
  | root => decide
  | last _ _ ih | inner _ _ ih =>
      simp only [String.toList_append, List.mem_append, not_or]
      exact ⟨⟨ih.2, by decide⟩, ih.2, by decide⟩

/-- Each level takes four characters. -/
theorem Leads.length_eq (h : g.Leads id ancestors lead margin) :
    lead.length = 4 * ancestors.length ∧ margin.length = 4 * ancestors.length := by
  induction h with
  | root => decide
  | last _ _ ih | inner _ _ ih =>
      simp only [String.length_append, ih.2, List.length_cons, Nat.mul_succ]
      exact ⟨rfl, rfl⟩

theorem Leads.readLead_margin (h : g.Leads id ancestors lead margin) (rest : List Char) :
    readLead (margin.toList ++ rest) =
      ((readLead rest).1 + ancestors.length, (readLead rest).2) := by
  -- A margin grows at its end and is read from its beginning, so what follows it varies.
  induction h generalizing rest with
  | root => rfl
  | last _ _ ih | inner _ _ ih =>
      rw [String.toList_append, List.append_assoc, ih]
      simp [readLead, Nat.add_assoc, Nat.add_comm 1]

/-- The elbow or tee of a node ends what leads to it. -/
theorem Leads.readLead_lead
    (h : g.Leads id ancestors lead margin) (hbelow : ancestors ≠ []) (rest : List Char) :
    readLead (lead.toList ++ rest) = (ancestors.length, rest) := by
  cases h with
  | root => exact absurd rfl hbelow
  | last hparent _ | inner hparent _ =>
      rw [String.toList_append, List.append_assoc, hparent.readLead_margin]
      simp [readLead, Nat.add_comm 1]

/-- The lines below the root are read from their text. -/
theorem Writes.map_readLine_eq
    (h : g.Writes lines text) (hbelow : ∀ line ∈ lines, line.place.ancestors ≠ [])
    (hlegible : ∀ line ∈ lines, Legible line.place.id) :
    (endedLines [] text.toList).map readLine = lines.map OutlineLine.entry := by
  induction h with
  | nil => rfl
  | @cons line lines lead margin words text hlead hwords _ ih =>
      obtain ⟨hline, hbelow⟩ := List.forall_mem_cons.1 hbelow
      obtain ⟨hid, hlegible⟩ := List.forall_mem_cons.1 hlegible
      have hunbroken : '\n' ∉ lead.toList ++ (line.place.id.toList ++ words.toList) := by
        simp [hlead.unbroken.1, hid.unbroken, hwords.unbroken]
      have htext : (lead ++ line.place.id ++ words ++ "\n" ++ text).toList =
          (lead.toList ++ (line.place.id.toList ++ words.toList)) ++ '\n' :: text.toList := by
        simp
      rw [htext, OutlineEntry.endedLines_append hunbroken, List.map_cons, ih hbelow hlegible,
        List.reverse_nil, List.nil_append, readLine, hlead.readLead_lead hline,
        hwords.readNode_eq hid]
      rfl

/-- **The lines of an outline are read from its text**, when their names are
legible: the first stands for the root, the others for what is below it. -/
theorem Writes.readText_eq
    {mark : OutlineMark} (h : g.Writes (⟨.root root, mark⟩ :: lines) text)
    (hbelow : ∀ line ∈ lines, line.place.ancestors ≠ [])
    (hroot : Legible root) (hlegible : ∀ line ∈ lines, Legible line.place.id) :
    readText text = (⟨.root root, mark⟩ :: lines).map OutlineLine.entry := by
  cases h with
  | @cons _ _ _ _ words text hlead hwords hlines =>
      cases hlead
      have hunbroken : '\n' ∉ root.toList ++ words.toList := by
        simp [hroot.unbroken, hwords.unbroken]
      have htext : ("" ++ root ++ words ++ "\n" ++ text).toList =
          (root.toList ++ words.toList) ++ '\n' :: text.toList := by
        simp
      unfold readText
      rw [OutlinePlace.root, htext, OutlineEntry.endedLines_append hunbroken]
      simp only [List.reverse_nil, List.nil_append]
      rw [hwords.readNode_eq hroot, hlines.map_readLine_eq hbelow hlegible]
      rfl

end Reading

section Writing

open OutlinePlace (indent margin indent_append margin_append branch_of_mem_below of_mem_below)

variable {shown shown' : NameSet}

/-- What is drawn for the branches of a place leads to its node. -/
theorem Draws.leads (h : g.Draws shown [.root root] lines shown') :
    ∀ line ∈ lines, g.Leads line.place.id line.place.ancestors
      (indent line.place.branch) (margin line.place.branch) := by
  refine h.forall_places (P := fun place =>
    g.Leads place.id place.ancestors (indent place.branch) (margin place.branch)) ?_ ?_
  · intro place hplace other hother
    rw [branch_of_mem_below (g.nodup_dependencies _) hother, indent_append, margin_append,
      (of_mem_below hother).1]
    by_cases hlast : (g.dependencies place.id).getLast? = some other.id
    · simpa [hlast] using Leads.last hplace hlast
    · simpa [hlast] using Leads.inner hplace hlast
  · exact fun place hplace => List.mem_singleton.1 hplace ▸ Leads.root root

/-- **A drawing is written as its text.** -/
theorem Draws.writes (h : g.Draws shown [.root root] lines shown') :
    g.Writes lines (String.join (lines.map fun line => line.text ++ "\n")) := by
  have hleads := h.leads
  clear h
  induction lines with
  | nil => exact .nil
  | cons line lines ih =>
      obtain ⟨hline, hlines⟩ := List.forall_mem_cons.1 hleads
      rw [List.map_cons, String.join_cons]
      exact .cons hline line.mark.words_text (ih hlines)

end Writing

end DependencyGraph
end CloudTemplate
