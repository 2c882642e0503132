import CloudTemplate.Proofs.Graph.OutlineText

/-!
# What an outline shows

The outline of a node shows what the node reaches.  Every line says which node it
stands for and, by its depth, below which line it stands, so a line other than the
first stands for an edge (`OutlinePlace.link?`).

The nodes without a mark are the ones that are reached, each once
(`Draws.nodup_unmarked`, `Draws.mem_unmarked_iff`), and the lines below them are the edges
that leave these nodes, each once (`Draws.links_perm`).  So there is at most one
line for each edge, and the steps of `DependencyGraph.outline` suffice
(`exists_draws_outline`).

A node is finished when it is expanded and no longer above what is drawn.  As long
as no line is marked as circular, finished nodes lead to finished nodes only, and
none of them is on a cycle (`Draws.settled`).

Main statement: an outline is a faithful drawing (`Depicts`) of what its root
reaches, and its text shows these lines (`outline_depicts`).
-/

namespace CloudTemplate
namespace DependencyGraph

open OutlineLine (above links unmarked)

variable {g : DependencyGraph} {shown shown' : NameSet}
variable {place : OutlinePlace} {places : List OutlinePlace}
variable {line : OutlineLine} {lines before after : List OutlineLine}
variable {path : List String} {root id u v : String}

section Nodes

/-- No node has two lines without a mark. -/
theorem Draws.nodup_unmarked (h : g.Draws shown places lines shown') :
    (unmarked lines).Nodup ∧ ∀ id ∈ unmarked lines, id ∉ shown.names := by
  induction h with
  | nothing shown => simp [unmarked]
  | marked hmark _ ih =>
      rw [OutlineLine.unmarked_cons, if_neg hmark]
      exact ih
  | @expanded shown inner shown' place rest children lines hmark hchildren _ ihchildren ihrest =>
      obtain ⟨hnodup, hnew⟩ := ihchildren
      obtain ⟨hnodup', hnew'⟩ := ihrest
      simp only [hchildren.mem_names_iff, NameSet.mem_names_add, not_or] at hnew hnew'
      rw [OutlineLine.unmarked_cons, if_pos rfl, OutlineLine.unmarked_append]
      refine ⟨List.nodup_cons.2 ⟨?_, hnodup.append hnodup' ?_⟩, fun id hid => ?_⟩
      · rw [List.mem_append, not_or]
        exact ⟨fun hmem => (hnew _ hmem).1 rfl, fun hmem => (hnew' _ hmem).1.1 rfl⟩
      · exact fun id hid hid' => (hnew' id hid').2 hid
      · rcases List.mem_cons.1 hid with rfl | hid
        · exact (markOf_eq_expanded_iff.1 hmark).2
        · rcases List.mem_append.1 hid with hid | hid
          · exact (hnew id hid).2
          · exact (hnew' id hid).1.2

/-- The node of every line is expanded in the end, if those above are expanded. -/
theorem Draws.id_mem_names
    (h : g.Draws shown places lines shown')
    (habove : ∀ place ∈ places, ∀ id ∈ place.ancestors, id ∈ shown.names) :
    ∀ line ∈ lines, line.place.id ∈ shown'.names := by
  induction h with
  | nothing shown => exact List.forall_mem_nil _
  | @marked shown shown' place rest lines hmark hrest ih =>
      obtain ⟨hplace, habove⟩ := List.forall_mem_cons.1 habove
      refine List.forall_mem_cons.2 ⟨hrest.names_subset ?_, ih habove⟩
      by_contra hnew
      exact hmark (markOf_eq_expanded_iff.2 ⟨fun hmem => hnew (hplace _ hmem), hnew⟩)
  | @expanded shown inner shown' place rest children lines _ hchildren hrest ihchildren ihrest =>
      obtain ⟨hplace, habove⟩ := List.forall_mem_cons.1 habove
      have hadd : place.id ∈ (NameSet.add shown place.id).names :=
        NameSet.mem_names_add.2 (Or.inl rfl)
      have hsub : shown.names ⊆ (NameSet.add shown place.id).names :=
        fun id hid => NameSet.mem_names_add.2 (Or.inr hid)
      refine List.forall_mem_cons.2
        ⟨hrest.names_subset (hchildren.names_subset hadd), List.forall_mem_append.2 ⟨?_, ?_⟩⟩
      · refine fun child hchild => hrest.names_subset (ihchildren ?_ child hchild)
        intro other hother
        rw [(OutlinePlace.of_mem_below hother).1]
        exact List.forall_mem_cons.2 ⟨hadd, fun id hid => hsub (hplace id hid)⟩
      · refine ihrest fun other hother id hid => hchildren.names_subset ?_
        exact hsub (habove other hother id hid)

/-- What holds of the places to draw and is kept along edges holds of all nodes. -/
theorem Draws.reaches
    (h : g.Draws shown places lines shown') (hplaces : ∀ place ∈ places, g.Reaches root place.id) :
    ∀ line ∈ lines, g.Reaches root line.place.id :=
  h.forall_places (P := fun place => g.Reaches root place.id)
    (fun _ hplace _ hother => hplace.tail (OutlinePlace.of_mem_below hother).2) hplaces

/-- The nodes above a line lead to its node. -/
theorem Draws.leadsTo
    (h : g.Draws shown places lines shown')
    (hplaces : ∀ place ∈ places, ∀ id ∈ place.ancestors, Relation.TransGen g.Edge id place.id) :
    ∀ line ∈ lines, ∀ id ∈ line.place.ancestors, Relation.TransGen g.Edge id line.place.id := by
  refine h.forall_places (P := fun place => ∀ id ∈ place.ancestors,
    Relation.TransGen g.Edge id place.id) (fun place hplace other hother id hid => ?_) hplaces
  obtain ⟨hancestors, hedge⟩ := OutlinePlace.of_mem_below hother
  rw [hancestors] at hid
  rcases List.mem_cons.1 hid with rfl | hid
  · exact .single hedge
  · exact (hplace id hid).tail hedge

end Nodes

section Edges

/-- The lines stand for the places to draw and for the edges that leave the nodes
without a mark. -/
theorem Draws.links_perm (h : g.Draws shown places lines shown') :
    (links lines).Perm
      (places.filterMap OutlinePlace.link? ++ g.edgesFrom (unmarked lines)) := by
  induction h with
  | nothing shown => exact .refl _
  | @marked shown shown' place rest lines hmark _ ih =>
      rw [OutlineLine.links_cons, OutlineLine.unmarked_cons, if_neg hmark]
      cases hlink : place.link? <;> simpa [hlink] using ih
  | @expanded shown inner shown' place rest children lines _ _ _ ihchildren ihrest =>
      have hunmarked : g.edgesFrom (unmarked (⟨place, .expanded⟩ :: (children ++ lines))) =
          (g.dependencies place.id).map (fun target => (place.id, target)) ++
            (g.edgesFrom (unmarked children) ++ g.edgesFrom (unmarked lines)) := by
        rw [OutlineLine.unmarked_cons, if_pos rfl, OutlineLine.unmarked_append, edgesFrom,
          List.flatMap_cons, List.flatMap_append]
        rfl
      rw [OutlinePlace.filterMap_link?_below] at ihchildren
      have hboth := (ihchildren.append ihrest).trans (List.perm_append_comm_assoc ..)
      rw [List.append_assoc] at hboth
      rw [OutlineLine.links_cons, OutlineLine.links_append, hunmarked]
      cases hlink : place.link? <;> simpa [hlink] using hboth

end Edges

section Whole

theorem ancestors_of_mem_root (root : String) :
    ∀ place ∈ [OutlinePlace.root root], place.ancestors = [] := by
  simp [OutlinePlace.root]

/-- Every line stands for a node that the root reaches. -/
theorem Draws.reaches_of_root (h : g.Draws .empty [.root root] lines shown) :
    ∀ line ∈ lines, g.Reaches root line.place.id :=
  h.reaches fun _ hplace => List.mem_singleton.1 hplace ▸ .refl root

/-- The drawing of a root: its line, and the lines below it. -/
theorem Draws.exists_eq_cons (h : g.Draws .empty [.root root] lines shown) :
    ∃ rest, lines = ⟨.root root, .expanded⟩ :: rest ∧ ∀ line ∈ rest, line.place.ancestors ≠ [] := by
  cases h with
  | marked hmark _ =>
      exact absurd (markOf_eq_expanded_iff.2 ⟨by simp [OutlinePlace.root], by simp⟩) hmark
  | expanded _ hchildren hrest =>
      cases hrest
      rw [List.append_nil]
      refine ⟨_, rfl, hchildren.forall_places (P := fun place => place.ancestors ≠ []) ?_ ?_⟩
      · exact fun _ _ _ hother => (OutlinePlace.of_mem_below hother).1 ▸ List.cons_ne_nil _ _
      · exact fun _ hother => (OutlinePlace.of_mem_below hother).1 ▸ List.cons_ne_nil _ _

theorem Draws.length_le (h : g.Draws .empty [.root root] lines shown) :
    lines.length ≤ g.edgeCount + 1 := by
  have hlinks : (links lines).length ≤ g.edgeCount :=
    h.links_perm.length_eq.trans_le (length_edgesFrom_le h.nodup_unmarked.1)
  obtain ⟨rest, rfl, hdeep⟩ := h.exists_eq_cons
  rw [List.length_cons, ← OutlineLine.length_links hdeep]
  exact Nat.succ_le_succ hlinks

/-- The steps of an outline suffice, and so do more. -/
theorem Draws.outlineFrom_eq {steps : Nat} (h : g.Draws .empty [.root root] lines shown)
    (hsteps : g.edgeCount < steps) : g.outlineFrom steps .empty [.root root] = lines := by
  obtain ⟨more, rfl⟩ := Nat.exists_eq_add_of_le (h.length_le.trans hsteps)
  have hrun := h.outlineFrom_append more []
  rwa [outlineFrom_nil, List.append_nil, List.append_nil] at hrun

/-- An outline is a drawing of its root. -/
theorem exists_draws_outline (g : DependencyGraph) (root : String) :
    ∃ shown, g.Draws .empty [.root root] (g.outline root) shown := by
  obtain ⟨lines, shown, h⟩ := g.exists_draws .empty [.root root]
  have hlines : g.outline root = lines := h.outlineFrom_eq (Nat.lt_succ_self _)
  exact ⟨shown, hlines ▸ h⟩

/-- The nodes without a mark are those that the root reaches. -/
theorem Draws.mem_unmarked_iff (h : g.Draws .empty [.root root] lines shown) :
    id ∈ unmarked lines ↔ g.Reaches root id := by
  have hnames : ∀ id, id ∈ shown.names ↔ id ∈ unmarked lines := fun id => by
    rw [h.mem_names_iff]
    simp
  have hline := h.id_mem_names (by simp [OutlinePlace.root])
  constructor
  · intro hid
    obtain ⟨line, hmem, rfl, -⟩ := OutlineLine.mem_unmarked_iff.1 hid
    exact h.reaches_of_root line hmem
  · intro hreach
    induction hreach with
    | refl =>
        obtain ⟨rest, rfl, -⟩ := h.exists_eq_cons
        exact OutlineLine.mem_unmarked_iff.2 ⟨_, List.mem_cons_self .., rfl, rfl⟩
    | @tail u v _ hedge ih =>
        have hlink := h.links_perm.mem_iff.2 (mem_edgesFrom_iff.2 ⟨ih, hedge⟩)
        obtain ⟨line, hmem, hlink⟩ := List.mem_filterMap.1 hlink
        obtain ⟨_, -, heq⟩ := Option.map_eq_some_iff.1 hlink
        exact (hnames v).1 ((Prod.mk.inj heq).2 ▸ hline line hmem)

end Whole

section Cycles

/-- Finished nodes, which are expanded and not above what is drawn, lead to
finished nodes, and none of them is on a cycle. -/
def Settled (g : DependencyGraph) (shown : NameSet) (path : List String) : Prop :=
  ∀ u ∈ shown.names, u ∉ path →
    ¬ g.OnCycle u ∧ ∀ v, g.Edge u v → v ∈ shown.names ∧ v ∉ path

theorem Settled.of_reaches (h : g.Settled shown path) (huv : g.Reaches u v)
    (hu : u ∈ shown.names ∧ u ∉ path) : v ∈ shown.names ∧ v ∉ path := by
  induction huv with
  | refl => exact hu
  | tail _ hedge ih => exact (h _ ih.1 ih.2).2 _ hedge

/-- The node of a place is finished when its dependencies are. -/
theorem Settled.finish
    (h : g.Settled shown (id :: path))
    (hdependencies : ∀ v, g.Edge id v → v ∈ shown.names ∧ v ∉ id :: path) :
    g.Settled shown path := by
  intro u hu hpath
  by_cases heq : u = id
  · subst heq
    refine ⟨fun hcycle => ?_, fun v hedge => ?_⟩
    · obtain ⟨v, hedge, hback⟩ := Relation.TransGen.head'_iff.1 hcycle
      exact (h.of_reaches hback (hdependencies v hedge)).2 (List.mem_cons_self ..)
    · obtain ⟨hv, hnot⟩ := hdependencies v hedge
      exact ⟨hv, fun hmem => hnot (List.mem_cons_of_mem _ hmem)⟩
  · obtain ⟨hcycle, hedges⟩ := h u hu (by simp [heq, hpath])
    refine ⟨hcycle, fun v hedge => ?_⟩
    obtain ⟨hv, hnot⟩ := hedges v hedge
    exact ⟨hv, fun hmem => hnot (List.mem_cons_of_mem _ hmem)⟩

/-- A new node above what is drawn is met by no finished node. -/
theorem Settled.add (h : g.Settled shown path) (hnew : id ∉ shown.names) :
    g.Settled (NameSet.add shown id) (id :: path) := by
  intro u hu hpath
  rw [List.mem_cons, not_or] at hpath
  obtain ⟨hcycle, hedges⟩ := h u ((NameSet.mem_names_add.1 hu).resolve_left hpath.1) hpath.2
  refine ⟨hcycle, fun v hedge => ?_⟩
  obtain ⟨hv, hnot⟩ := hedges v hedge
  refine ⟨NameSet.mem_names_add.2 (Or.inr hv), ?_⟩
  rw [List.mem_cons, not_or]
  exact ⟨fun heq => hnew (heq ▸ hv), hnot⟩

/-- Without a line marked as circular, the nodes of the drawn places are finished. -/
theorem Draws.settled
    (h : g.Draws shown places lines shown')
    (hplaces : ∀ place ∈ places, place.ancestors = path)
    (hcircular : ∀ line ∈ lines, line.mark ≠ .circular) (hsettled : g.Settled shown path) :
    g.Settled shown' path ∧ ∀ place ∈ places, place.id ∈ shown'.names ∧ place.id ∉ path := by
  induction h generalizing path with
  | nothing shown => exact ⟨hsettled, List.forall_mem_nil _⟩
  | @marked shown shown' place rest lines hmark hrest ih =>
      obtain ⟨hplace, hplaces⟩ := List.forall_mem_cons.1 hplaces
      obtain ⟨hline, hcircular⟩ := List.forall_mem_cons.1 hcircular
      obtain ⟨hsettled', hfinished⟩ := ih hplaces hcircular hsettled
      have hfresh : place.id ∉ path := fun hmem =>
        hline (markOf_eq_circular_iff.2 (hplace ▸ hmem))
      refine ⟨hsettled', List.forall_mem_cons.2 ⟨⟨hrest.names_subset ?_, hfresh⟩, hfinished⟩⟩
      by_contra hnew
      exact hmark (markOf_eq_expanded_iff.2 ⟨hplace ▸ hfresh, hnew⟩)
  | @expanded shown inner shown' place rest children lines hmark hchildren hrest ihchildren
      ihrest =>
      obtain ⟨hplace, hplaces⟩ := List.forall_mem_cons.1 hplaces
      obtain ⟨-, hcircular⟩ := List.forall_mem_cons.1 hcircular
      obtain ⟨hcircular, hcircular'⟩ := List.forall_mem_append.1 hcircular
      obtain ⟨hfresh, hnew⟩ := markOf_eq_expanded_iff.1 hmark
      have hbelow : ∀ other ∈ place.below (g.dependencies place.id),
          other.ancestors = place.id :: path :=
        fun other hother => hplace ▸ (OutlinePlace.of_mem_below hother).1
      obtain ⟨hinner, hdependencies⟩ := ihchildren hbelow hcircular (hsettled.add hnew)
      have hfinish : g.Settled inner path := by
        refine hinner.finish fun v hedge => ?_
        have hv : v ∈ ((place.below (g.dependencies place.id)).map OutlinePlace.id) := by
          rw [OutlinePlace.map_id_below]
          exact hedge
        obtain ⟨other, hother, rfl⟩ := List.mem_map.1 hv
        exact hdependencies other hother
      obtain ⟨hsettled', hfinished⟩ := ihrest hplaces hcircular' hfinish
      refine ⟨hsettled', List.forall_mem_cons.2 ⟨⟨?_, hplace ▸ hfresh⟩, hfinished⟩⟩
      exact hrest.names_subset (hchildren.names_subset (NameSet.mem_names_add.2 (Or.inl rfl)))

/-- A line is marked as circular just when the root reaches a cycle. -/
theorem Draws.exists_circular_iff (h : g.Draws .empty [.root root] lines shown) :
    (∃ line ∈ lines, line.mark = .circular) ↔ ∃ id, g.Reaches root id ∧ g.OnCycle id := by
  constructor
  · rintro ⟨line, hline, hmark⟩
    obtain ⟨before, after, hsplit⟩ := List.append_of_mem hline
    obtain ⟨seen, hseen, -⟩ := h.exists_mark_eq hsplit
    have habove := markOf_eq_circular_iff.1 (hseen.symm.trans hmark)
    exact ⟨_, h.reaches_of_root line hline,
      h.leadsTo (by simp [OutlinePlace.root]) line hline _ habove⟩
  · rintro ⟨id, hreach, hcycle⟩
    by_contra hnone
    simp only [not_exists, not_and] at hnone
    obtain ⟨hsettled, hroot⟩ := h.settled (ancestors_of_mem_root root) hnone
      (fun u hu => by simp at hu)
    obtain ⟨hmem, hpath⟩ := hsettled.of_reaches hreach (hroot _ (List.mem_singleton_self _))
    exact (hsettled id hmem hpath).1 hcycle

end Cycles

section Picture

/-- The lines are a picture of what the root reaches, and the text shows them.

Whatever is said of a line speaks of its depth, its node and its mark: the nodes
above it and the lines below it can be read from depths and nodes.  The text has
these three for every line, drawn and in words, and they can be read from it. -/
structure Depicts (g : DependencyGraph) (root : String) (lines : List OutlineLine)
    (text : String) : Prop where
  /-- The first line is that of the root, and all others are below it. -/
  first : ∃ rest, lines = ⟨.root root, .expanded⟩ :: rest ∧ ∀ line ∈ rest, 0 < line.place.depth
  /-- No node has two lines without a mark. -/
  nodup_unmarked : (unmarked lines).Nodup
  /-- The nodes with a line without a mark are those that the root reaches. -/
  mem_unmarked_iff : ∀ id, id ∈ unmarked lines ↔ g.Reaches root id
  /-- No edge has two lines. -/
  nodup_links : (links lines).Nodup
  /-- The edges with a line are those that leave a node that the root reaches. -/
  mem_links_iff : ∀ u v, (u, v) ∈ links lines ↔ g.Reaches root u ∧ g.Edge u v
  /-- What stands above a line is read from the lines before it. -/
  ancestors_eq : ∀ before line after, lines = before ++ line :: after →
    line.place.ancestors = above line.place.depth before.reverse
  /-- Directly below a line without a mark stand the dependencies of its node,
  ascending, and below a marked line stands nothing. -/
  map_id_below : ∀ before line after, lines = before ++ line :: after →
    (line.below after).map (fun other => other.place.id) =
        (if line.mark = .expanded then g.dependencies line.place.id else []) ∧
      ((line.below after).map fun other => other.place.id).Pairwise (· < ·)
  /-- A line is marked as circular when its node stands above it. -/
  circular_iff : ∀ line ∈ lines, line.mark = .circular ↔ line.place.id ∈ line.place.ancestors
  /-- A line is marked as shown when its node does not stand above it, but had a
  line without a mark before. -/
  alreadyShown_iff : ∀ before line after, lines = before ++ line :: after →
    (line.mark = .alreadyShown ↔
      line.place.id ∉ line.place.ancestors ∧ line.place.id ∈ unmarked before)
  /-- Some line is marked as circular when the root reaches a cycle. -/
  exists_circular_iff : (∃ line ∈ lines, line.mark = .circular) ↔
    ∃ id, g.Reaches root id ∧ g.OnCycle id
  /-- The text is the lines, each with what leads to its node, the node and the
  words for its mark. -/
  writes : g.Writes lines text
  /-- To the node of a line lead four characters for each level above it. -/
  length_lead : ∀ line ∈ lines, ∀ lead margin,
    g.Leads line.place.id line.place.ancestors lead margin → lead.length = 4 * line.place.depth
  /-- Depth, node and mark of every line are read from the text, if the names in it
  are legible. -/
  readText_eq : (∀ id, g.Reaches root id → Legible id) →
    OutlineEntry.readText text = lines.map OutlineLine.entry

theorem Draws.depicts (h : g.Draws .empty [.root root] lines shown) :
    g.Depicts root lines (String.join (lines.map fun line => line.text ++ "\n")) where
  first := by
    obtain ⟨rest, hlines, hdeep⟩ := h.exists_eq_cons
    exact ⟨rest, hlines, fun line hline => List.length_pos_of_ne_nil (hdeep line hline)⟩
  nodup_unmarked := h.nodup_unmarked.1
  mem_unmarked_iff := fun _ => h.mem_unmarked_iff
  nodup_links := h.links_perm.nodup_iff.2 (nodup_edgesFrom h.nodup_unmarked.1)
  mem_links_iff := fun _ _ =>
    h.links_perm.mem_iff.trans (mem_edgesFrom_iff.trans (and_congr_left' h.mem_unmarked_iff))
  ancestors_eq := by
    intro before line after hsplit
    have hearlier : above 0 [] = [] := rfl
    have habove := h.ancestors_eq_above (ancestors_of_mem_root root) hearlier hsplit
    rwa [List.append_nil] at habove
  map_id_below := by
    intro before line after hsplit
    have hdepth : ∀ place ∈ [OutlinePlace.root root], place.depth = 0 :=
      fun place hplace => congrArg List.length (ancestors_of_mem_root root place hplace)
    rw [h.map_id_below hdepth hsplit]
    refine ⟨rfl, ?_⟩
    split_ifs
    · exact g.pairwise_dependencies _
    · exact List.Pairwise.nil
  circular_iff := by
    intro line hline
    obtain ⟨before, after, hsplit⟩ := List.append_of_mem hline
    obtain ⟨seen, hmark, -⟩ := h.exists_mark_eq hsplit
    rw [hmark, markOf_eq_circular_iff]
  alreadyShown_iff := by
    intro before line after hsplit
    obtain ⟨seen, hmark, hseen⟩ := h.exists_mark_eq hsplit
    rw [hmark, markOf_eq_alreadyShown_iff, hseen]
    simp
  exists_circular_iff := h.exists_circular_iff
  writes := h.writes
  length_lead := fun _ _ _ _ hlead => hlead.length_eq.1
  readText_eq := by
    intro hlegible
    have hline : ∀ line ∈ lines, Legible line.place.id :=
      fun line hmem => hlegible _ (h.reaches_of_root line hmem)
    have hwrites := h.writes
    obtain ⟨rest, rfl, hdeep⟩ := h.exists_eq_cons
    obtain ⟨hroot, hrest⟩ := List.forall_mem_cons.1 hline
    exact hwrites.readText_eq hdeep hroot hrest

/-- **An outline is a picture of what its root reaches.**  The recursion that draws
it ends with these lines, the steps that write them are never too few, and its text
shows them. -/
theorem outline_depicts (g : DependencyGraph) (root : String) :
    (∃ shown, g.Draws .empty [.root root] (g.outline root) shown) ∧
    (∀ steps, g.edgeCount < steps → g.outlineFrom steps .empty [.root root] = g.outline root) ∧
    g.Depicts root (g.outline root) (g.outlineText root) := by
  obtain ⟨shown, h⟩ := g.exists_draws_outline root
  exact ⟨⟨shown, h⟩, fun _ hsteps => h.outlineFrom_eq hsteps, h.depicts⟩

/-- `A` needs `B` and `C`, `B` needs `C`, and `C` needs `A`. -/
def triangle : DependencyGraph :=
  .ofRows (.ofList
    [("A", .ofList [("B", .reference), ("C", .reference)]), ("B", .ofList [("C", .reference)]),
      ("C", .ofList [("A", .reference)])]) .empty []

/-- `C` is shown where it is first reached, and `A` stands above itself. -/
theorem readText_triangle :
    triangle.outlineText "A" =
      "A\n├── B\n│   └── C\n│       └── A (circular reference)\n└── C (already shown)\n" ∧
    (∀ id, triangle.Reaches "A" id → Legible id) ∧
    OutlineEntry.readText (triangle.outlineText "A") =
      [⟨0, "A", .expanded⟩, ⟨1, "B", .expanded⟩, ⟨2, "C", .expanded⟩, ⟨3, "A", .circular⟩,
        ⟨1, "C", .alreadyShown⟩] := by
  have hdepicts := (triangle.outline_depicts "A").2.2
  have hlegible : ∀ id, triangle.Reaches "A" id → Legible id := by
    intro id hid
    have hmem := (hdepicts.mem_unmarked_iff id).2 hid
    have hall : ∀ id ∈ unmarked (triangle.outline "A"), Legible id := by decide +kernel
    exact hall id hmem
  refine ⟨by decide +kernel, hlegible, ?_⟩
  rw [hdepicts.readText_eq hlegible]
  decide +kernel

/-- A line break in a name makes the text that of other lines. -/
example :
    DependencyGraph.outlineText (.ofRows (.ofList [("A\n└── B", .empty)]) .empty []) "A\n└── B" =
      DependencyGraph.outlineText (.ofRows (.ofList
        [("A", .ofList [("B", .reference)]), ("B", .empty)]) .empty []) "A" := by
  decide +kernel

end Picture

end DependencyGraph
end CloudTemplate
