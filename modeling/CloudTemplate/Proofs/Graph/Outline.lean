import Mathlib.Data.List.TakeWhile
import CloudTemplate.Graph.Outline
import CloudTemplate.Proofs.Graph.Incidence

/-!
# Drawing an outline

The outline of a node is drawn place by place.  A place whose node is above it,
or was expanded before, gets a marked line and nothing below it.  Any other place
gets a line without a mark, then the places of its dependencies are drawn, and
then what comes behind it.

`DependencyGraph.Draws` is this recursion as a relation between the places to
draw, the nodes that are expanded before and after, and the lines.  It ends,
because a place with dependencies is expanded only once for each node
(`exists_draws`), and `DependencyGraph.outlineFrom` writes its lines with one
step for each (`Draws.outlineFrom_append`).

The lines are read from their depths and names alone: the nodes above a line
(`OutlineLine.above`) and the lines directly below it (`OutlineLine.below`).
Main statements: the nodes above a line are those of its place
(`Draws.ancestors_eq_above`), below a line without a mark stand the dependencies
of its node and below a marked one nothing (`Draws.map_id_below`), and marks are
given in view of the lines above and before (`Draws.exists_mark_eq`).
-/

namespace CloudTemplate

section Lists

variable {α : Type*} {x : α} {front back pre post : List α}

/-- An item of two lists behind each other is in the first or in the second. -/
theorem append_eq_append_cons (h : front ++ back = pre ++ x :: post) :
    (∃ rest, front = pre ++ x :: rest ∧ post = rest ++ back) ∨
      ∃ rest, pre = front ++ rest ∧ back = rest ++ x :: post := by
  rcases List.append_eq_append_iff.1 h with ⟨rest, hpre, hback⟩ | ⟨rest, hfront, hrest⟩
  · exact Or.inr ⟨rest, hpre, hback⟩
  · cases rest with
    | nil => exact Or.inr ⟨[], by simpa using hfront.symm, by simpa using hrest.symm⟩
    | cons y rest =>
        obtain ⟨rfl, hpost⟩ := List.cons.inj hrest
        exact Or.inl ⟨rest, hfront, hpost⟩

/-- What begins with an item that ends the search adds nothing. -/
theorem takeWhile_append_of_head? {p : α → Bool} (h : ∀ y ∈ back.head?, ¬ p y = true) :
    (front ++ back).takeWhile p = front.takeWhile p := by
  induction front with
  | nil =>
      cases back with
      | nil => rfl
      | cons y back => exact List.takeWhile_cons_of_neg (h y rfl)
  | cons y front ih => by_cases hy : p y = true <;> simp [hy, ih]

end Lists

/-- The node directly above a place, with that of the place. -/
def OutlinePlace.link? (place : OutlinePlace) : Option (String × String) :=
  place.ancestors.head?.map fun parent => (parent, place.id)

namespace OutlineLine

/-- The nodes above a line of the given depth, nearest first, read from the
lines before it, last one first: whoever looks for what a line stands below goes
back to the next line that is less deep. -/
def above (depth : Nat) : List OutlineLine → List String
  | [] => []
  | line :: earlier =>
      if line.place.depth < depth then line.place.id :: above line.place.depth earlier
      else above depth earlier

/-- The lines directly below a line, read from the lines behind it: of those up
to the next line that is not deeper, the ones with the next depth. -/
def below (line : OutlineLine) (later : List OutlineLine) : List OutlineLine :=
  (later.takeWhile fun other => line.place.depth < other.place.depth).filter
    fun other => other.place.depth = line.place.depth + 1

/-- The nodes of the lines without a mark. -/
def unmarked (lines : List OutlineLine) : List String :=
  (lines.filter fun line => line.mark = .expanded).map fun line => line.place.id

/-- The lines but for the first, each as the node directly above with its own. -/
def links (lines : List OutlineLine) : List (String × String) :=
  lines.filterMap fun line => line.place.link?

variable {line : OutlineLine} {lines before after later : List OutlineLine}
variable {depth : Nat} {id : String}

/-- Deeper lines are passed over. -/
theorem above_append (h : ∀ line ∈ before, depth ≤ line.place.depth) :
    above depth (before ++ lines) = above depth lines := by
  induction before with
  | nil => rfl
  | cons line before ih =>
      obtain ⟨hline, hbefore⟩ := List.forall_mem_cons.1 h
      rw [List.cons_append, above, if_neg (Nat.not_lt.2 hline), ih hbefore]

theorem below_append (hlater : ∀ other ∈ later.head?, other.place.depth ≤ line.place.depth) :
    below line (after ++ later) = below line after := by
  unfold below
  rw [takeWhile_append_of_head?]
  simpa using hlater

theorem unmarked_append (lines later : List OutlineLine) :
    unmarked (lines ++ later) = unmarked lines ++ unmarked later := by
  simp [unmarked]

theorem unmarked_cons (line : OutlineLine) (lines : List OutlineLine) :
    unmarked (line :: lines) =
      if line.mark = .expanded then line.place.id :: unmarked lines else unmarked lines := by
  by_cases h : line.mark = .expanded <;> simp [unmarked, h]

theorem mem_unmarked_iff :
    id ∈ unmarked lines ↔ ∃ line ∈ lines, line.place.id = id ∧ line.mark = .expanded := by
  simp [unmarked, and_assoc, and_comm]

theorem links_cons (line : OutlineLine) (lines : List OutlineLine) :
    links (line :: lines) = line.place.link?.toList ++ links lines := by
  cases h : line.place.link? <;> simp [links, h]

theorem links_append (lines later : List OutlineLine) :
    links (lines ++ later) = links lines ++ links later :=
  List.filterMap_append

/-- Every line with a node above it is counted. -/
theorem length_links (h : ∀ line ∈ lines, line.place.ancestors ≠ []) :
    (links lines).length = lines.length := by
  refine List.filterMap_length_eq_length.2 fun line hline => ?_
  rw [OutlinePlace.link?, Option.isSome_map, List.isSome_head?]
  simpa using h line hline

end OutlineLine

namespace OutlinePlace

variable {place other : OutlinePlace} {ids : List String}

theorem of_mem_below (h : other ∈ place.below ids) :
    other.ancestors = place.id :: place.ancestors ∧ other.id ∈ ids := by
  induction ids with
  | nil => cases h
  | cons id ids ih =>
      rcases List.mem_cons.1 h with rfl | hmem
      · exact ⟨rfl, List.mem_cons_self ..⟩
      · obtain ⟨hancestors, hid⟩ := ih hmem
        exact ⟨hancestors, List.mem_cons_of_mem _ hid⟩

theorem depth_of_mem_below (h : other ∈ place.below ids) : other.depth = place.depth + 1 :=
  congrArg List.length (of_mem_below h).1

theorem map_id_below (place : OutlinePlace) (ids : List String) :
    (place.below ids).map OutlinePlace.id = ids := by
  induction ids with
  | nil => rfl
  | cons id ids ih => exact congrArg (id :: ·) ih

theorem filterMap_link?_below (place : OutlinePlace) (ids : List String) :
    (place.below ids).filterMap link? = ids.map fun id => (place.id, id) := by
  induction ids with
  | nil => rfl
  | cons id ids ih => exact congrArg ((place.id, id) :: ·) ih

end OutlinePlace

namespace DependencyGraph

open OutlineLine (above below unmarked)

/-- Drawing the places, when the given nodes are expanded already, writes the
lines and leaves the other nodes expanded. -/
inductive Draws (g : DependencyGraph) :
    NameSet → List OutlinePlace → List OutlineLine → NameSet → Prop
  | nothing (shown : NameSet) : Draws g shown [] [] shown
  | marked
      {shown shown' : NameSet} {place : OutlinePlace} {rest : List OutlinePlace}
      {lines : List OutlineLine}
      (hmark : markOf shown place ≠ .expanded)
      (hrest : Draws g shown rest lines shown') :
      Draws g shown (place :: rest) (⟨place, markOf shown place⟩ :: lines) shown'
  | expanded
      {shown inner shown' : NameSet} {place : OutlinePlace} {rest : List OutlinePlace}
      {children lines : List OutlineLine}
      (hmark : markOf shown place = .expanded)
      (hchildren : Draws g (NameSet.add shown place.id)
        (place.below (g.dependencies place.id)) children inner)
      (hrest : Draws g inner rest lines shown') :
      Draws g shown (place :: rest) (⟨place, .expanded⟩ :: (children ++ lines)) shown'

variable {g : DependencyGraph} {shown shown' : NameSet}
variable {place : OutlinePlace} {places : List OutlinePlace}
variable {line : OutlineLine} {lines before after earlier : List OutlineLine}
variable {path : List String} {id : String}

section Marks

theorem markOf_eq_circular_iff : markOf shown place = .circular ↔ place.id ∈ place.ancestors := by
  unfold markOf
  split_ifs <;> simp_all

theorem markOf_eq_alreadyShown_iff :
    markOf shown place = .alreadyShown ↔ place.id ∉ place.ancestors ∧ place.id ∈ shown.names := by
  unfold markOf
  simp only [NameTable.contains_iff]
  split_ifs <;> simp_all

theorem markOf_eq_expanded_iff :
    markOf shown place = .expanded ↔ place.id ∉ place.ancestors ∧ place.id ∉ shown.names := by
  unfold markOf
  simp only [NameTable.contains_iff]
  split_ifs <;> simp_all

end Marks

section Run

/-- The nodes of the graph that are not expanded yet. -/
def unshown (g : DependencyGraph) (shown : NameSet) : List String :=
  g.ids.filter fun id => !shown.contains id

theorem mem_unshown_iff : id ∈ g.unshown shown ↔ id ∈ g.ids ∧ id ∉ shown.names := by
  simp [unshown, ← NameTable.contains_iff]

theorem length_unshown_le (h : shown.names ⊆ shown'.names) :
    (g.unshown shown').length ≤ (g.unshown shown).length := by
  refine (List.subperm_of_subset (g.nodup_ids.filter _) fun id hid => ?_).length_le
  obtain ⟨hmem, hnot⟩ := mem_unshown_iff.1 hid
  exact mem_unshown_iff.2 ⟨hmem, fun hshown => hnot (h hshown)⟩

theorem length_unshown_add_lt (hid : id ∈ g.ids) (hnew : id ∉ shown.names) :
    (g.unshown (NameSet.add shown id)).length < (g.unshown shown).length := by
  have hsub : id :: g.unshown (NameSet.add shown id) ⊆ g.unshown shown := by
    refine List.cons_subset.2 ⟨mem_unshown_iff.2 ⟨hid, hnew⟩, fun other hother => ?_⟩
    obtain ⟨hmem, hnot⟩ := mem_unshown_iff.1 hother
    rw [NameSet.mem_names_add, not_or] at hnot
    exact mem_unshown_iff.2 ⟨hmem, hnot.2⟩
  have hnodup : (id :: g.unshown (NameSet.add shown id)).Nodup := by
    refine List.nodup_cons.2 ⟨fun hmem => ?_, g.nodup_ids.filter _⟩
    exact (mem_unshown_iff.1 hmem).2 (NameSet.mem_names_add.2 (Or.inl rfl))
  exact (List.subperm_of_subset hnodup hsub).length_le

/-- What is expanded afterwards was expanded before or has a line without a
mark. -/
theorem Draws.mem_names_iff (h : g.Draws shown places lines shown') :
    id ∈ shown'.names ↔ id ∈ shown.names ∨ id ∈ unmarked lines := by
  induction h with
  | nothing shown => simp [unmarked]
  | marked hmark _ ih => rw [ih, OutlineLine.unmarked_cons, if_neg hmark]
  | expanded _ _ _ ihchildren ihrest =>
      rw [ihrest, ihchildren, NameSet.mem_names_add, OutlineLine.unmarked_cons, if_pos rfl,
        OutlineLine.unmarked_append, List.mem_cons, List.mem_append]
      tauto

theorem Draws.names_subset (h : g.Draws shown places lines shown') :
    shown.names ⊆ shown'.names :=
  fun _ hid => h.mem_names_iff.2 (Or.inl hid)

/-- **The recursion ends.**  The places below an expanded one are drawn when one
node fewer is left to expand, or there are none. -/
theorem exists_draws (g : DependencyGraph) (shown : NameSet) (places : List OutlinePlace) :
    ∃ lines shown', g.Draws shown places lines shown' := by
  induction hleft : (g.unshown shown).length using Nat.strong_induction_on
    generalizing shown places with
  | _ left ih =>
      subst hleft
      induction places generalizing shown with
      | nil => exact ⟨[], shown, .nothing shown⟩
      | cons place rest ihrest =>
          by_cases hmark : markOf shown place = .expanded
          · have hchildren : ∃ children inner, g.Draws (NameSet.add shown place.id)
                (place.below (g.dependencies place.id)) children inner := by
              cases hdependencies : g.dependencies place.id with
              | nil => exact ⟨[], _, .nothing _⟩
              | cons target targets =>
                  have hedge : g.Edge place.id target := by
                    rw [Edge, hdependencies]
                    exact List.mem_cons_self ..
                  exact ih _ (length_unshown_add_lt hedge.source_mem
                    (markOf_eq_expanded_iff.1 hmark).2) _ _ rfl
            obtain ⟨children, inner, hchildren⟩ := hchildren
            have hle : (g.unshown inner).length ≤ (g.unshown shown).length :=
              length_unshown_le fun id hid =>
                hchildren.names_subset (NameSet.mem_names_add.2 (Or.inr hid))
            obtain ⟨lines, shown', hrest⟩ := ihrest inner fun left hlt =>
              ih left (hlt.trans_le hle)
            exact ⟨_, _, .expanded hmark hchildren hrest⟩
          · obtain ⟨lines, shown', hrest⟩ := ihrest shown ih
            exact ⟨_, _, .marked hmark hrest⟩

theorem outlineFrom_nil (g : DependencyGraph) (steps : Nat) (shown : NameSet) :
    g.outlineFrom steps shown [] = [] := by
  cases steps <;> rfl

theorem outlineFrom_of_marked (hmark : markOf shown place ≠ .expanded) (steps : Nat)
    (pending : List OutlinePlace) :
    g.outlineFrom (steps + 1) shown (place :: pending) =
      ⟨place, markOf shown place⟩ :: g.outlineFrom steps shown pending := by
  rw [outlineFrom]
  cases h : markOf shown place with
  | expanded => exact absurd h hmark
  | circular => rfl
  | alreadyShown => rfl

theorem outlineFrom_of_expanded (hmark : markOf shown place = .expanded) (steps : Nat)
    (pending : List OutlinePlace) :
    g.outlineFrom (steps + 1) shown (place :: pending) =
      ⟨place, .expanded⟩ :: g.outlineFrom steps (NameSet.add shown place.id)
        (place.below (g.dependencies place.id) ++ pending) := by
  rw [outlineFrom, hmark]

/-- The steps write the lines that are drawn, one line in a step. -/
theorem Draws.outlineFrom_append (h : g.Draws shown places lines shown') (steps : Nat)
    (pending : List OutlinePlace) :
    g.outlineFrom (lines.length + steps) shown (places ++ pending) =
      lines ++ g.outlineFrom steps shown' pending := by
  induction h generalizing steps pending with
  | nothing shown => simp
  | marked hmark _ ih =>
      rw [List.length_cons, Nat.add_right_comm, List.cons_append, outlineFrom_of_marked hmark, ih,
        List.cons_append]
  | expanded hmark _ _ ihchildren ihrest =>
      rw [List.length_cons, List.length_append, Nat.add_right_comm, List.cons_append,
        outlineFrom_of_expanded hmark, Nat.add_assoc, ihchildren, ihrest, List.cons_append,
        List.append_assoc]

end Run

section Reading

/-- What holds of the places to draw, and with a place of those below it, holds of
the place of every line. -/
theorem Draws.forall_places
    {P : OutlinePlace → Prop} (h : g.Draws shown places lines shown')
    (hbelow : ∀ place, P place → ∀ other ∈ place.below (g.dependencies place.id), P other)
    (hplaces : ∀ place ∈ places, P place) : ∀ line ∈ lines, P line.place := by
  induction h with
  | nothing shown => exact List.forall_mem_nil _
  | marked _ _ ih =>
      obtain ⟨hplace, hrest⟩ := List.forall_mem_cons.1 hplaces
      exact List.forall_mem_cons.2 ⟨hplace, ih hrest⟩
  | expanded _ _ _ ihchildren ihrest =>
      obtain ⟨hplace, hrest⟩ := List.forall_mem_cons.1 hplaces
      refine List.forall_mem_cons.2 ⟨hplace, List.forall_mem_append.2 ⟨?_, ihrest hrest⟩⟩
      exact ihchildren (hbelow _ hplace)

theorem Draws.le_depth
    {depth : Nat} (h : g.Draws shown places lines shown')
    (hplaces : ∀ place ∈ places, depth ≤ place.depth) :
    ∀ line ∈ lines, depth ≤ line.place.depth := by
  refine h.forall_places (fun place hplace other hother => ?_) hplaces
  rw [OutlinePlace.depth_of_mem_below hother]
  exact Nat.le_succ_of_le hplace

/-- Induction along a drawing towards one of its lines: it is the line of the first
place, or it stands below that, or behind it. -/
theorem Draws.induction_line
    {motive : NameSet → List OutlinePlace → List OutlineLine → OutlineLine →
      List OutlineLine → Prop}
    (marked : ∀ {shown shown' : NameSet} {place rest lines},
      markOf shown place ≠ .expanded → g.Draws shown rest lines shown' →
      motive shown (place :: rest) [] ⟨place, markOf shown place⟩ lines)
    (expanded : ∀ {shown inner shown' : NameSet} {place rest children lines},
      markOf shown place = .expanded →
      g.Draws (NameSet.add shown place.id) (place.below (g.dependencies place.id))
        children inner →
      g.Draws inner rest lines shown' →
      motive shown (place :: rest) [] ⟨place, .expanded⟩ (children ++ lines))
    (behind_marked : ∀ {shown : NameSet} {place rest before line after},
      markOf shown place ≠ .expanded → motive shown rest before line after →
      motive shown (place :: rest) (⟨place, markOf shown place⟩ :: before) line after)
    (inside : ∀ {shown inner shown' : NameSet} {place rest lines before line after},
      g.Draws inner rest lines shown' →
      g.Draws (NameSet.add shown place.id) (place.below (g.dependencies place.id))
        (before ++ line :: after) inner →
      motive (NameSet.add shown place.id) (place.below (g.dependencies place.id))
        before line after →
      motive shown (place :: rest) (⟨place, .expanded⟩ :: before) line (after ++ lines))
    (behind_expanded : ∀ {shown inner : NameSet} {place rest children before line after},
      g.Draws (NameSet.add shown place.id) (place.below (g.dependencies place.id))
        children inner →
      motive inner rest before line after →
      motive shown (place :: rest) (⟨place, .expanded⟩ :: (children ++ before)) line after)
    (h : g.Draws shown places lines shown') (hsplit : lines = before ++ line :: after) :
    motive shown places before line after := by
  induction h generalizing before after with
  | nothing shown => simp at hsplit
  | marked hmark hrest ih =>
      cases before with
      | nil =>
          obtain ⟨rfl, rfl⟩ := List.cons.inj hsplit
          exact marked hmark hrest
      | cons first before =>
          obtain ⟨rfl, hbehind⟩ := List.cons.inj hsplit
          exact behind_marked hmark (ih hbehind)
  | expanded hmark hchildren hrest ihchildren ihrest =>
      cases before with
      | nil =>
          obtain ⟨rfl, rfl⟩ := List.cons.inj hsplit
          exact expanded hmark hchildren hrest
      | cons first before =>
          obtain ⟨rfl, hchild⟩ := List.cons.inj hsplit
          rcases append_eq_append_cons hchild with ⟨after', rfl, rfl⟩ | ⟨before', rfl, hbehind⟩
          · exact inside hrest hchildren (ihchildren rfl)
          · exact behind_expanded hchildren (ihrest hbehind)

/-- The nodes above a line are read from the lines before it. -/
theorem Draws.ancestors_eq_above
    (h : g.Draws shown places lines shown')
    (hplaces : ∀ place ∈ places, place.ancestors = path)
    (hearlier : above path.length earlier = path) (hsplit : lines = before ++ line :: after) :
    line.place.ancestors = above line.place.depth (before.reverse ++ earlier) := by
  have hfirst : ∀ {place : OutlinePlace} {path : List String} {earlier : List OutlineLine},
      place.ancestors = path → above path.length earlier = path →
        place.ancestors = above place.depth ([].reverse ++ earlier) := by
    rintro place _ earlier rfl hearlier
    exact hearlier.symm
  refine Draws.induction_line (motive := fun _ places before line _ =>
    ∀ (path : List String) (earlier : List OutlineLine),
      (∀ place ∈ places, place.ancestors = path) → above path.length earlier = path →
        line.place.ancestors = above line.place.depth (before.reverse ++ earlier))
    ?marked ?expanded ?behind_marked ?inside ?behind_expanded h hsplit path earlier hplaces hearlier
  case marked =>
    intro shown shown' place rest lines _ _ path earlier hplaces hearlier
    exact hfirst (List.forall_mem_cons.1 hplaces).1 hearlier
  case expanded =>
    intro shown inner shown' place rest children lines _ _ _ path earlier hplaces hearlier
    exact hfirst (List.forall_mem_cons.1 hplaces).1 hearlier
  case behind_marked =>
    intro shown place rest before line after _ ih path earlier hplaces hearlier
    obtain ⟨hplace, hrest⟩ := List.forall_mem_cons.1 hplaces
    have hdepth : place.depth = path.length := congrArg List.length hplace
    rw [List.reverse_cons, List.append_assoc]
    refine ih path _ hrest ?_
    rw [OutlineLine.above_append, hearlier]
    simp [hdepth]
  case inside =>
    intro shown inner shown' place rest lines before line after _ _ ih path earlier hplaces hearlier
    obtain ⟨hplace, -⟩ := List.forall_mem_cons.1 hplaces
    have hdepth : place.depth = path.length := congrArg List.length hplace
    rw [List.reverse_cons, List.append_assoc]
    refine ih (place.id :: path) _ (fun other hother => ?_) ?_
    · exact hplace ▸ (OutlinePlace.of_mem_below hother).1
    · rw [List.singleton_append, above, if_pos (by simp [hdepth]), hdepth, hearlier]
  case behind_expanded =>
    intro shown inner place rest children before line after hchildren ih path earlier hplaces
      hearlier
    obtain ⟨hplace, hrest⟩ := List.forall_mem_cons.1 hplaces
    have hdepth : place.depth = path.length := congrArg List.length hplace
    -- Everything since the place is at its depth or deeper.
    have hdeep : ∀ child ∈ children, path.length ≤ child.place.depth := by
      refine hchildren.le_depth fun other hother => ?_
      rw [OutlinePlace.depth_of_mem_below hother, hdepth]
      exact Nat.le_succ _
    rw [List.reverse_cons, List.reverse_append, List.append_assoc, List.append_assoc]
    refine ih path _ hrest ?_
    rw [OutlineLine.above_append fun child hchild => hdeep child (List.mem_reverse.1 hchild),
      OutlineLine.above_append, hearlier]
    simp [hdepth]

/-- A line is marked in view of the nodes that are expanded before it. -/
theorem Draws.exists_mark_eq
    (h : g.Draws shown places lines shown') (hsplit : lines = before ++ line :: after) :
    ∃ seen : NameSet, line.mark = markOf seen line.place ∧
      ∀ id, id ∈ seen.names ↔ id ∈ shown.names ∨ id ∈ unmarked before := by
  refine Draws.induction_line (motive := fun shown _ before line _ =>
    ∃ seen : NameSet, line.mark = markOf seen line.place ∧
      ∀ id, id ∈ seen.names ↔ id ∈ shown.names ∨ id ∈ unmarked before)
    ?marked ?expanded ?behind_marked ?inside ?behind_expanded h hsplit
  case marked =>
    intro shown shown' place rest lines _ _
    exact ⟨shown, rfl, fun id => by simp [unmarked]⟩
  case expanded =>
    intro shown inner shown' place rest children lines hmark _ _
    exact ⟨shown, hmark.symm, fun id => by simp [unmarked]⟩
  case behind_marked =>
    intro shown place rest before line after hmark ih
    rw [OutlineLine.unmarked_cons, if_neg hmark]
    exact ih
  case inside =>
    rintro shown inner shown' place rest lines before line after _ _ ⟨seen, hseen, hnames⟩
    refine ⟨seen, hseen, fun id => ?_⟩
    rw [hnames, NameSet.mem_names_add, OutlineLine.unmarked_cons, if_pos rfl, List.mem_cons]
    tauto
  case behind_expanded =>
    rintro shown inner place rest children before line after hchildren ⟨seen, hseen, hnames⟩
    refine ⟨seen, hseen, fun id => ?_⟩
    rw [hnames, hchildren.mem_names_iff, NameSet.mem_names_add, OutlineLine.unmarked_cons,
      if_pos rfl, OutlineLine.unmarked_append, List.mem_cons, List.mem_append]
    tauto

/-- The places to draw are those of the lines that are least deep. -/
theorem Draws.map_place_filter
    {depth : Nat} (h : g.Draws shown places lines shown')
    (hplaces : ∀ place ∈ places, place.depth = depth) :
    (lines.filter fun line => line.place.depth = depth).map OutlineLine.place = places := by
  induction h with
  | nothing shown => rfl
  | marked _ _ ih =>
      obtain ⟨hplace, hrest⟩ := List.forall_mem_cons.1 hplaces
      rw [List.filter_cons_of_pos (by simpa using hplace), List.map_cons, ih hrest]
  | expanded _ hchildren _ _ ihrest =>
      obtain ⟨hplace, hrest⟩ := List.forall_mem_cons.1 hplaces
      have hdeep := hchildren.le_depth fun _ hother => (OutlinePlace.depth_of_mem_below hother).ge
      rw [List.filter_cons_of_pos (by simpa using hplace), List.map_cons, List.filter_append,
        List.filter_eq_nil_iff.2 fun child hchild => ?_, List.nil_append, ihrest hrest]
      have hlt := hdeep child hchild
      rw [decide_eq_true_eq]
      omega

/-- The places below a place are those of the lines directly below its line. -/
theorem Draws.map_place_below
    {ids : List String} (h : g.Draws shown (place.below ids) lines shown') (mark : OutlineMark) :
    (OutlineLine.below ⟨place, mark⟩ lines).map OutlineLine.place = place.below ids := by
  have hbelow : ∀ other ∈ place.below ids, other.depth = place.depth + 1 :=
    fun _ hother => OutlinePlace.depth_of_mem_below hother
  have hdeep := h.le_depth fun other hother => (hbelow other hother).ge
  have hall : (lines.takeWhile fun other => place.depth < other.place.depth) = lines :=
    List.takeWhile_eq_self_iff.2 fun line hline => decide_eq_true (hdeep line hline)
  rw [OutlineLine.below, hall]
  exact h.map_place_filter hbelow

/-- The first line is that of the first place. -/
theorem Draws.depth_head?
    {depth : Nat} (h : g.Draws shown places lines shown')
    (hplaces : ∀ place ∈ places, place.depth = depth) :
    ∀ line ∈ lines.head?, line.place.depth = depth := by
  intro line hline
  cases h with
  | nothing => cases hline
  | marked =>
      cases hline
      exact hplaces _ (List.mem_cons_self ..)
  | expanded =>
      cases hline
      exact hplaces _ (List.mem_cons_self ..)

/-- Directly below a line without a mark stand the dependencies of its node, and
below a marked one stands nothing. -/
theorem Draws.map_id_below
    {depth : Nat} (h : g.Draws shown places lines shown')
    (hplaces : ∀ place ∈ places, place.depth = depth) (hsplit : lines = before ++ line :: after) :
    (line.below after).map (fun other => other.place.id) =
      if line.mark = .expanded then g.dependencies line.place.id else [] := by
  refine Draws.induction_line (motive := fun _ places _ line after =>
    ∀ depth : Nat, (∀ place ∈ places, place.depth = depth) → depth ≤ line.place.depth ∧
      (line.below after).map (fun other => other.place.id) =
        if line.mark = .expanded then g.dependencies line.place.id else [])
    ?marked ?expanded ?behind_marked ?inside ?behind_expanded h hsplit depth hplaces |>.2
  case marked =>
    intro shown shown' place rest lines hmark hrest depth hplaces
    obtain ⟨hplace, hrest'⟩ := List.forall_mem_cons.1 hplaces
    refine ⟨hplace.ge, ?_⟩
    have hhead : ∀ other ∈ lines.head?, other.place.depth ≤ place.depth :=
      fun other hother => (hrest.depth_head? hrest' other hother).trans_le hplace.ge
    rw [if_neg hmark, ← List.nil_append lines, OutlineLine.below_append hhead]
    rfl
  case expanded =>
    intro shown inner shown' place rest children lines hmark hchildren hrest depth hplaces
    obtain ⟨hplace, hrest'⟩ := List.forall_mem_cons.1 hplaces
    refine ⟨hplace.ge, ?_⟩
    have hhead : ∀ other ∈ lines.head?, other.place.depth ≤ place.depth :=
      fun other hother => (hrest.depth_head? hrest' other hother).trans_le hplace.ge
    have hchildren' := congrArg (List.map OutlinePlace.id) (hchildren.map_place_below .expanded)
    rw [List.map_map, OutlinePlace.map_id_below] at hchildren'
    rw [if_pos rfl, OutlineLine.below_append hhead]
    exact hchildren'
  case behind_marked =>
    intro shown place rest before line after _ ih depth hplaces
    exact ih depth (List.forall_mem_cons.1 hplaces).2
  case inside =>
    intro shown inner shown' place rest lines before line after hrest hchildren ih depth hplaces
    obtain ⟨hplace, hrest'⟩ := List.forall_mem_cons.1 hplaces
    obtain ⟨hdepth, hbelow⟩ := ih (depth + 1) fun other hother =>
      (OutlinePlace.depth_of_mem_below hother).trans (congrArg (· + 1) hplace)
    refine ⟨Nat.le_of_succ_le hdepth, ?_⟩
    rw [OutlineLine.below_append fun other hother => ?_, hbelow]
    exact (hrest.depth_head? hrest' other hother).trans_le (Nat.le_of_succ_le hdepth)
  case behind_expanded =>
    intro shown inner place rest children before line after _ ih depth hplaces
    exact ih depth (List.forall_mem_cons.1 hplaces).2

end Reading

end DependencyGraph
end CloudTemplate
