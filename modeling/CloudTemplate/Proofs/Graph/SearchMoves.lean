import CloudTemplate.Proofs.Graph.SearchRun

/-!
# The moves of the depth-first search

A move of the search either enters a root, while the path is empty, or is a turn
of the loop over the path: it follows an edge, to a new node or to one entered
before, or it leaves a node.  `Search.Does` says what a move does to the path and to
the stack of the open nodes, and `Search.Performs` makes the moves of all roots, as
many as there are.

What a move takes from one place it has put there, or has taken from another one
(`Trail.balance`).  So the nodes that are pushed were still to be entered, the edges
that are followed still lay ahead, and what leaves the path or the stack has been
pushed on it.

Main statement: there is one turn for each node and one for each edge, every node is
pushed on the path and on the stack once, and after each root both are empty
(`performs_each_move_once`).
-/

namespace CloudTemplate
namespace Search

open DependencyGraph

/-- What a move does. -/
inductive Deed where
  /-- A root is pushed on the path and on the stack. -/
  | enter (root : String)
  /-- An edge is followed, and its target is pushed on the path and on the stack. -/
  | descend (source target : String)
  /-- An edge is followed to a node that was entered before. -/
  | pass (source target : String)
  /-- A node is popped off the path, and the members of the component that this
  completes off the stack. -/
  | leave (node : String) (members : List String)

namespace Deed

/-- The loop over the path takes a turn for it. -/
def isTurn : Deed → Bool
  | enter _ => false
  | _ => true

/-- What it pushes on the path and on the stack. -/
def pushed : Deed → List String
  | enter root => [root]
  | descend _ target => [target]
  | _ => []

/-- The edge that it follows. -/
def followed : Deed → List (String × String)
  | descend source target => [(source, target)]
  | pass source target => [(source, target)]
  | _ => []

/-- What it pops off the path. -/
def left : Deed → List String
  | leave node _ => [node]
  | _ => []

/-- What it pops off the stack. -/
def closed : Deed → List String
  | leave _ members => members
  | _ => []

end Deed

/-- The move from one state to the other is of the given kind. -/
inductive Does (g : DependencyGraph) (s t : Search) : Deed → Prop
  | enter {root : String} (fresh : ¬ s.Entered root) (start : s.frames = [])
      (path : t.frames = [(root, g.dependencies root)]) (stack : t.stack = root :: s.stack)
      (entered : ∀ id, t.Entered id ↔ id = root ∨ s.Entered id) : Does g s t (.enter root)
  | descend {u v : String} {rest : List String} {below : List (String × List String)}
      (fresh : ¬ s.Entered v) (start : s.frames = (u, v :: rest) :: below)
      (path : t.frames = (v, g.dependencies v) :: (u, rest) :: below)
      (stack : t.stack = v :: s.stack)
      (entered : ∀ id, t.Entered id ↔ id = v ∨ s.Entered id) : Does g s t (.descend u v)
  | pass {u v : String} {rest : List String} {below : List (String × List String)}
      (known : s.Entered v) (start : s.frames = (u, v :: rest) :: below)
      (path : t.frames = (u, rest) :: below) (stack : t.stack = s.stack)
      (entered : ∀ id, t.Entered id ↔ s.Entered id) : Does g s t (.pass u v)
  | leave {u : String} {members : List String} {below : List (String × List String)}
      (start : s.frames = (u, []) :: below)
      (path : t.frames = below) (stack : s.stack = members ++ t.stack)
      (entered : ∀ id, t.Entered id ↔ s.Entered id) : Does g s t (.leave u members)

/-- A move, with the state in which it is made. -/
structure Move where
  state : Search
  deed : Deed

/-- The search of the given roots, from one state to another one: the loop over the path
takes turns until the path is empty, then the next root is entered, unless it was
entered before. -/
inductive Performs (g : DependencyGraph) : List String → Search → List Move → Search → Prop
  | done {s : Search} (start : s.frames = []) : Performs g [] s [] s
  | skip {root : String} {roots : List String} {s t : Search} {moves : List Move}
      (start : s.frames = []) (known : s.Entered root) (rest : Performs g roots s moves t) :
      Performs g (root :: roots) s moves t
  | enter {root : String} {roots : List String} {s t : Search} {moves : List Move}
      (start : s.frames = []) (fresh : ¬ s.Entered root)
      (rest : Performs g roots (s.enter g root) moves t) :
      Performs g (root :: roots) s (⟨s, .enter root⟩ :: moves) t
  | turn {roots : List String} {s t : Search} {deed : Deed} {moves : List Move}
      (start : s.frames ≠ []) (does : s.Does g (s.step g) deed)
      (rest : Performs g roots (s.step g) moves t) :
      Performs g roots s (⟨s, deed⟩ :: moves) t

variable {g : DependencyGraph} {s t : Search} {deed : Deed} {moves : List Move}
variable {roots : List String} {root u v : String}

section Does

theorem does_enter (hstart : s.frames = []) (hfresh : ¬ s.Entered root) :
    s.Does g (s.enter g root) (.enter root) :=
  .enter hfresh hstart (by simp [Search.enter, hstart]) rfl fun id => entered_enter g s root id

/-- Popping loses nothing. -/
theorem popThrough_partition (node : String) (stack : List String) :
    (popThrough node stack).1 ++ (popThrough node stack).2 = stack := by
  induction stack with
  | nil => rfl
  | cons top rest ih =>
      unfold popThrough
      split
      · rfl
      · rw [List.cons_append, ih]

theorem exists_stack_leave (s : Search) (node : String) :
    ∃ members, s.stack = members ++ (s.leave node).stack := by
  unfold leave
  split
  · exact ⟨[], rfl⟩
  · next mark _ =>
      by_cases hroot : mark.lowlink = mark.index
      · refine ⟨(popThrough node s.stack).1, ?_⟩
        simp only [hroot, if_true]
        split <;> exact (popThrough_partition node s.stack).symm
      · refine ⟨[], ?_⟩
        simp only [hroot, if_false]
        split <;> rfl

/-- Every turn of the loop is a move of one of the kinds. -/
theorem exists_does_step (hframes : s.frames ≠ []) : ∃ deed, s.Does g (s.step g) deed := by
  rcases hsplit : s.frames with _ | ⟨⟨node, _ | ⟨succ, rest⟩⟩, below⟩
  · exact absurd hsplit hframes
  · have hstep : s.step g = (s.shortened below).leave node := by
      simp [Search.step, hsplit, shortened]
    obtain ⟨members, hstack⟩ := exists_stack_leave (s.shortened below) node
    rw [hstep]
    exact ⟨_, .leave hsplit (frames_leave node) hstack fun id => entered_leave node⟩
  · cases hget : s.marks.get? succ with
    | none =>
        have hstep : s.step g =
            ({ s with frames := (node, rest) :: below }).enter g succ := by
          simp [Search.step, hsplit, hget]
        rw [hstep]
        exact ⟨_, .descend (NameTable.get?_eq_none_iff.1 hget) hsplit rfl rfl
          fun id => entered_enter g _ succ id⟩
    | some mark =>
        have hstep : (s.step g).frames = (node, rest) :: below ∧
            (s.step g).stack = s.stack ∧ ∀ id, (s.step g).Entered id ↔ s.Entered id := by
          simp only [Search.step, hsplit, hget]
          split
          · exact ⟨rfl, rfl, fun id => entered_lower ..⟩
          · exact ⟨rfl, rfl, fun id => Iff.rfl⟩
        exact ⟨_, .pass (NameTable.mem_names_iff_get?.2 ⟨mark, hget⟩) hsplit hstep.1
          hstep.2.1 hstep.2.2⟩

/-- What a move does is seen from the states before and after it. -/
theorem Does.unique {deed' : Deed} (h : s.Does g t deed) (h' : s.Does g t deed') :
    deed = deed' := by
  -- The path in front of the move tells the kinds apart, but for the two that follow an
  -- edge; these differ in whether its target was entered before.
  cases h <;> cases h' <;> simp_all

end Does

section Trail

/-- Moves one after the other, among states in which the invariant of the search holds. -/
inductive Trail (g : DependencyGraph) : Search → List Move → Search → Prop
  | nil (s : Search) : Trail g s [] s
  | cons {s t u : Search} {deed : Deed} {moves : List Move} (before : s.Sound g)
      (after : t.Sound g) (does : s.Does g t deed) (rest : Trail g t moves u) :
      Trail g s (⟨s, deed⟩ :: moves) u

theorem Performs.trail
    (h : Performs g roots s moves t) (hs : s.Sound g) (hroots : ∀ u ∈ roots, u ∈ g.ids) :
    Trail g s moves t := by
  induction h with
  | done _ => exact .nil _
  | skip _ _ _ ih => exact ih hs fun u hu => hroots u (List.mem_cons_of_mem _ hu)
  | @enter root _ s _ _ hstart hfresh _ ih =>
      have hpath : ∀ p ∈ s.path, g.Reaches p root := by simp [path, hstart]
      have hsound := hs.enter hfresh (hroots root (List.mem_cons_self ..)) hpath
      exact .cons hs hsound (does_enter hstart hfresh)
        (ih hsound fun u hu => hroots u (List.mem_cons_of_mem _ hu))
  | turn _ hdoes _ ih => exact .cons hs hs.step hdoes (ih hs.step hroots)

theorem Trail.sound (h : Trail g s moves t) : ∀ move ∈ moves, move.state.Sound g := by
  induction h with
  | nil _ => simp
  | cons hbefore _ _ _ ih => exact List.forall_mem_cons.2 ⟨hbefore, ih⟩

/-- Let every move take some items from a place and put some there.  Then what all moves
take and what is left there is what they put there and what was there before. -/
theorem Trail.balance
    {α : Type} (taken put : Deed → List α) (place : Search → List α)
    (hmove : ∀ {s t deed}, s.Sound g → t.Sound g → s.Does g t deed →
      (taken deed ++ place t).Perm (put deed ++ place s))
    (h : Trail g s moves t) :
    (moves.flatMap (fun move => taken move.deed) ++ place t).Perm
      (moves.flatMap (fun move => put move.deed) ++ place s) := by
  induction h with
  | nil s => exact .refl _
  | @cons s mid t deed moves hbefore hafter hdoes _ ih =>
      rw [List.flatMap_cons, List.flatMap_cons, List.append_assoc, List.append_assoc]
      calc
        (taken deed ++ (moves.flatMap (fun move => taken move.deed) ++ place t)).Perm
            (taken deed ++ (moves.flatMap (fun move => put move.deed) ++ place mid)) :=
          ih.append_left _
        List.Perm _ (moves.flatMap (fun move => put move.deed) ++ (taken deed ++ place mid)) :=
          List.perm_append_comm_assoc ..
        List.Perm _ (moves.flatMap (fun move => put move.deed) ++ (put deed ++ place s)) :=
          (hmove hbefore hafter hdoes).append_left _
        List.Perm _ (put deed ++ (moves.flatMap (fun move => put move.deed) ++ place s)) :=
          List.perm_append_comm_assoc ..

/-- Where nothing is put, everything that was there is taken or left there. -/
theorem Trail.taken_perm
    {α : Type} (taken : Deed → List α) (place : Search → List α)
    (hmove : ∀ {s t deed}, s.Sound g → t.Sound g → s.Does g t deed →
      (taken deed ++ place t).Perm (place s))
    (h : Trail g s moves t) :
    (moves.flatMap (fun move => taken move.deed) ++ place t).Perm (place s) := by
  have hperm := h.balance taken (fun _ => []) place hmove
  rwa [List.flatMap_eq_nil_iff.2 fun _ _ => rfl, List.nil_append] at hperm

end Trail

section Places

/-- The nodes that are still to be entered. -/
def unentered (g : DependencyGraph) (s : Search) : List String :=
  g.ids.filter fun id => !s.marks.contains id

/-- The edges that lie ahead of the nodes of a path. -/
def onward (frames : List (String × List String)) : List (String × String) :=
  frames.flatMap fun frame => frame.2.map fun target => (frame.1, target)

/-- The edges that are still to be followed: those that lie ahead of the nodes of the
path, and those of nodes still to be entered. -/
def ahead (g : DependencyGraph) (s : Search) : List (String × String) :=
  onward s.frames ++ g.edgesFrom (s.unentered g)

theorem mem_unentered_iff : u ∈ s.unentered g ↔ u ∈ g.ids ∧ ¬ s.Entered u := by
  unfold unentered Entered
  rw [List.mem_filter, Bool.not_eq_true', ← Bool.not_eq_true, NameTable.contains_iff]

theorem nodup_unentered (g : DependencyGraph) (s : Search) : (s.unentered g).Nodup :=
  g.nodup_ids.filter _

/-- A node that is pushed was still to be entered. -/
theorem Does.unentered_perm (ht : t.Sound g) (h : s.Does g t deed) :
    (deed.pushed ++ t.unentered g).Perm (s.unentered g) := by
  have hnew : ∀ {v}, ¬ s.Entered v → (∀ id, t.Entered id ↔ id = v ∨ s.Entered id) →
      (v :: t.unentered g).Perm (s.unentered g) := by
    intro v hfresh hentered
    have hv : t.Entered v := (hentered v).2 (Or.inl rfl)
    have hnodup : (v :: t.unentered g).Nodup :=
      List.nodup_cons.2 ⟨fun hmem => (mem_unentered_iff.1 hmem).2 hv, nodup_unentered g t⟩
    refine (List.perm_ext_iff_of_nodup hnodup (nodup_unentered g s)).2 fun id => ?_
    rw [List.mem_cons, mem_unentered_iff, mem_unentered_iff, hentered, not_or]
    constructor
    · rintro (rfl | ⟨hid, -, hfresh⟩)
      · exact ⟨ht.placed.entered_ids id hv, hfresh⟩
      · exact ⟨hid, hfresh⟩
    · rintro ⟨hid, hfresh'⟩
      by_cases heq : id = v
      · exact Or.inl heq
      · exact Or.inr ⟨hid, heq, hfresh'⟩
  have hsame : (∀ id, t.Entered id ↔ s.Entered id) → t.unentered g = s.unentered g := by
    intro hentered
    refine List.filter_congr fun id _ => congrArg (!·) (Bool.eq_iff_iff.2 ?_)
    rw [NameTable.contains_iff, NameTable.contains_iff]
    exact hentered id
  cases h with
  | enter hfresh _ _ _ hentered => exact hnew hfresh hentered
  | descend hfresh _ _ _ hentered => exact hnew hfresh hentered
  | pass _ _ _ _ hentered => exact .of_eq (hsame hentered)
  | leave _ _ _ hentered => exact .of_eq (hsame hentered)

/-- The edges of a node that is pushed come to lie ahead of it. -/
theorem onward_push_perm
    (hperm : (v :: t.unentered g).Perm (s.unentered g)) (frames : List (String × List String)) :
    (onward ((v, g.dependencies v) :: frames) ++ g.edgesFrom (t.unentered g)).Perm
      (onward frames ++ g.edgesFrom (s.unentered g)) := by
  have hedges : (g.edgesFrom (v :: t.unentered g)).Perm (g.edgesFrom (s.unentered g)) :=
    hperm.flatMap_right _
  rw [edgesFrom, List.flatMap_cons] at hedges
  rw [onward, List.flatMap_cons, List.append_assoc]
  exact (List.perm_append_comm_assoc ..).trans (hedges.append_left _)

/-- An edge that is followed lay ahead. -/
theorem Does.ahead_perm (ht : t.Sound g) (h : s.Does g t deed) :
    (deed.followed ++ t.ahead g).Perm (s.ahead g) := by
  have hperm := h.unentered_perm ht
  unfold ahead
  cases h with
  | enter _ hstart hpath _ _ =>
      rw [hstart, hpath]
      exact onward_push_perm hperm []
  | @descend _ _ rest below _ hstart hpath _ _ =>
      rw [hstart, hpath]
      exact .cons _ (onward_push_perm hperm ((_, rest) :: below))
  | @pass _ _ rest below _ hstart hpath _ _ =>
      have hedges : (g.edgesFrom (t.unentered g)).Perm (g.edgesFrom (s.unentered g)) :=
        hperm.flatMap_right _
      rw [hstart, hpath]
      exact .cons _ (hedges.append_left (onward ((_, rest) :: below)))
  | @leave _ _ below hstart hpath _ _ =>
      have hedges : (g.edgesFrom (t.unentered g)).Perm (g.edgesFrom (s.unentered g)) :=
        hperm.flatMap_right _
      rw [hstart, hpath]
      exact hedges.append_left (onward below)

theorem Does.path_perm (h : s.Does g t deed) :
    (deed.left ++ t.path).Perm (deed.pushed ++ s.path) := by
  unfold path
  cases h with
  | enter _ hstart hpath _ _ => simp [hstart, hpath, Deed.left, Deed.pushed]
  | descend _ hstart hpath _ _ => simp [hstart, hpath, Deed.left, Deed.pushed]
  | pass _ hstart hpath _ _ => simp [hstart, hpath, Deed.left, Deed.pushed]
  | leave hstart hpath _ _ => simp [hstart, hpath, Deed.left, Deed.pushed]

theorem Does.stack_perm (h : s.Does g t deed) :
    (deed.closed ++ t.stack).Perm (deed.pushed ++ s.stack) := by
  cases h with
  | enter _ _ _ hstack _ => exact .of_eq hstack
  | descend _ _ _ hstack _ => exact .of_eq hstack
  | pass _ _ _ hstack _ => exact .of_eq hstack
  | leave _ _ hstack _ => exact .of_eq hstack.symm

end Places

section Runs

/-- The search is determined by the state that it starts from. -/
theorem Performs.unique
    {moves' : List Move} {t' : Search} (h : Performs g roots s moves t)
    (h' : Performs g roots s moves' t') : moves' = moves ∧ t' = t := by
  induction h generalizing moves' t' with
  | done hstart =>
      cases h' with
      | done _ => exact ⟨rfl, rfl⟩
      | turn hne _ _ => exact absurd hstart hne
  | skip hstart hknown _ ih =>
      cases h' with
      | skip _ _ h' => exact ih h'
      | enter _ hfresh _ => exact absurd hknown hfresh
      | turn hne _ _ => exact absurd hstart hne
  | enter hstart hfresh _ ih =>
      cases h' with
      | skip _ hknown _ => exact absurd hknown hfresh
      | enter _ _ h' =>
          obtain ⟨rfl, rfl⟩ := ih h'
          exact ⟨rfl, rfl⟩
      | turn hne _ _ => exact absurd hstart hne
  | turn hne hdoes _ ih =>
      cases h' with
      | done hstart => exact absurd hstart hne
      | skip hstart _ _ => exact absurd hstart hne
      | enter hstart _ _ => exact absurd hstart hne
      | turn _ hdoes' h' =>
          obtain ⟨rfl, rfl⟩ := ih h'
          rw [hdoes.unique hdoes']
          exact ⟨rfl, rfl⟩

/-- What follows a bounded number of turns follows the state in front of them. -/
theorem Performs.of_run (steps : Nat) (h : Performs g roots (s.run g steps) moves t) :
    ∃ moves', Performs g roots s moves' t := by
  induction steps generalizing s with
  | zero => exact ⟨moves, h⟩
  | succ steps ih =>
      by_cases hframes : s.frames = []
      · rw [run, if_pos (by simp [hframes])] at h
        exact ⟨moves, h⟩
      · rw [run, if_neg (by simp [hframes])] at h
        obtain ⟨moves', hrest⟩ := ih h
        obtain ⟨deed, hdoes⟩ := exists_does_step (g := g) hframes
        exact ⟨_, .turn hframes hdoes hrest⟩

/-- The bound on the number of turns is never what ends a visit. -/
theorem AtRest.exists_performs (hs : s.AtRest g) (hroots : ∀ u ∈ roots, u ∈ g.ids) :
    ∃ moves, Performs g roots s moves (roots.foldl (Search.visit g (stepCount g)) s) := by
  induction roots generalizing s with
  | nil => exact ⟨_, .done hs.frames⟩
  | cons root roots ih =>
      have hvisit := (hs.visit (hroots root (List.mem_cons_self ..))).1
      obtain ⟨moves, hrest⟩ := ih hvisit fun u hu => hroots u (List.mem_cons_of_mem _ hu)
      rw [List.foldl_cons]
      by_cases hentered : s.Entered root
      · have hskip : s.visit g (stepCount g) root = s :=
          if_pos (NameTable.contains_iff.2 hentered)
        rw [hskip] at hrest ⊢
        exact ⟨_, .skip hs.frames hentered hrest⟩
      · have henter : s.visit g (stepCount g) root = (s.enter g root).run g (stepCount g) :=
          if_neg fun h => hentered (NameTable.contains_iff.1 h)
        rw [henter] at hrest ⊢
        obtain ⟨moves', hrun⟩ := hrest.of_run
        exact ⟨_, .enter hs.frames hentered hrun⟩

/-- A turn either follows an edge or leaves a node. -/
theorem countP_isTurn (moves : List Move) :
    moves.countP (fun move => move.deed.isTurn) =
      (moves.flatMap fun move => move.deed.followed).length +
        (moves.flatMap fun move => move.deed.left).length := by
  induction moves with
  | nil => rfl
  | cons move moves ih =>
      rw [List.countP_cons, ih, List.flatMap_cons, List.flatMap_cons, List.length_append,
        List.length_append]
      cases move.deed <;> simp [Deed.isTurn, Deed.followed, Deed.left] <;> omega

/-- The search once it has visited the given roots. -/
def visited (g : DependencyGraph) (roots : List String) : Search :=
  roots.foldl (Search.visit g (stepCount g)) start

theorem atRest_visited (hroots : ∀ u ∈ roots, u ∈ g.ids) : (visited g roots).AtRest g :=
  ((atRest_start g).visits roots hroots).1

/-- All is done once all nodes have been visited. -/
theorem unentered_visited (g : DependencyGraph) : (visited g g.ids).unentered g = [] := by
  obtain ⟨-, hall, -⟩ := (atRest_start g).visits g.ids fun u hu => hu
  refine List.eq_nil_iff_forall_not_mem.2 fun u hu => ?_
  obtain ⟨hid, hfresh⟩ := mem_unentered_iff.1 hu
  exact hfresh (hall u hid)

/-- The moves of a search in which every node is pushed and popped once and every edge
is followed once. -/
structure Exact (g : DependencyGraph) (moves : List Move) : Prop where
  turns : moves.countP (fun move => move.deed.isTurn) = g.nodeCount + g.edgeCount
  pushed : (moves.flatMap fun move => move.deed.pushed).Perm g.ids
  left : (moves.flatMap fun move => move.deed.left).Perm g.ids
  closed : (moves.flatMap fun move => move.deed.closed).Perm g.ids
  followed : (moves.flatMap fun move => move.deed.followed).Perm
    (g.edges.map fun edge => (edge.1, edge.2.1))

theorem Trail.exact (h : Trail g start moves (visited g g.ids)) : Exact g moves := by
  have hids : ∀ u ∈ g.ids, u ∈ g.ids := fun _ hu => hu
  have hrest := atRest_visited hids
  have hstart : start.unentered g = g.ids :=
    List.filter_eq_self.2 fun id _ => rfl
  have hpushed : (moves.flatMap fun move => move.deed.pushed).Perm g.ids := by
    have hperm := h.taken_perm Deed.pushed (unentered g)
      fun _ hafter hdoes => hdoes.unentered_perm hafter
    rwa [unentered_visited, hstart, List.append_nil] at hperm
  -- Both stacks are empty in the beginning and in the end, so what was pushed was popped.
  have hleft : (moves.flatMap fun move => move.deed.left).Perm g.ids := by
    have hperm := h.balance Deed.left Deed.pushed path fun _ _ hdoes => hdoes.path_perm
    have hnone : (visited g g.ids).path = [] := congrArg (List.map Prod.fst) hrest.frames
    have hnone' : start.path = [] := rfl
    rw [hnone, hnone', List.append_nil, List.append_nil] at hperm
    exact hperm.trans hpushed
  have hclosed : (moves.flatMap fun move => move.deed.closed).Perm g.ids := by
    have hperm := h.balance Deed.closed Deed.pushed stack fun _ _ hdoes => hdoes.stack_perm
    have hnone : start.stack = [] := rfl
    rw [hrest.stack_eq_nil, hnone, List.append_nil, List.append_nil] at hperm
    exact hperm.trans hpushed
  have hfollowed : (moves.flatMap fun move => move.deed.followed).Perm
      (g.edges.map fun edge => (edge.1, edge.2.1)) := by
    have hperm := h.taken_perm Deed.followed (ahead g)
      fun _ hafter hdoes => hdoes.ahead_perm hafter
    have hnone : (visited g g.ids).ahead g = [] := by
      rw [ahead, hrest.frames, unentered_visited]
      rfl
    have hall : start.ahead g = g.edgesFrom g.ids := by
      rw [ahead, hstart]
      rfl
    rwa [hnone, hall, edgesFrom_ids, List.append_nil] at hperm
  refine ⟨?_, hpushed, hleft, hclosed, hfollowed⟩
  rw [countP_isTurn, hfollowed.length_eq, hleft.length_eq, List.length_map, length_edges,
    Nat.add_comm]
  exact congrArg (· + g.edgeCount) (NameTable.length_names _)

end Runs

/-- **The loop over the path takes one turn for every node and one for every edge.**
After any number of roots the search, which knows no bound, has come to the state in
which the bounded one stands, with no node on the path, on the stack or open.  In the
search of all roots every node is pushed on the path and on the stack once, and popped
off each once, and every edge is followed once; a node is open just while it is on the
stack. -/
theorem performs_each_move_once (g : DependencyGraph) :
    (∀ roots others, g.ids = roots ++ others →
      (∃ moves, Performs g roots start moves (visited g roots)) ∧
        (visited g roots).frames = [] ∧ (visited g roots).stack = [] ∧
        ∀ id, ((visited g roots).mark id).isOpen = false) ∧
    ∃ moves, Performs g g.ids start moves (visited g g.ids) ∧
      (∀ moves' t, Performs g g.ids start moves' t → moves' = moves ∧ t = visited g g.ids) ∧
      g.components = (visited g g.ids).closed.reverse ∧
      Exact g moves ∧
      ∀ move ∈ moves, ∀ id, (move.state.mark id).isOpen = true ↔ id ∈ move.state.stack := by
  refine ⟨fun roots others hids => ?_, ?_⟩
  · have hroots : ∀ u ∈ roots, u ∈ g.ids := fun u hu => hids ▸ List.mem_append_left _ hu
    have hrest := atRest_visited hroots
    refine ⟨(atRest_start g).exists_performs hroots, hrest.frames, hrest.stack_eq_nil,
      fun id => ?_⟩
    rw [← Bool.not_eq_true, hrest.sound.placed.open_iff, hrest.stack_eq_nil]
    exact List.not_mem_nil
  · have hids : ∀ u ∈ g.ids, u ∈ g.ids := fun _ hu => hu
    obtain ⟨moves, hperforms⟩ := (atRest_start g).exists_performs hids
    have htrail := hperforms.trail (sound_start g) hids
    exact ⟨moves, hperforms, fun _ _ h => hperforms.unique h, rfl, htrail.exact,
      fun move hmove => (htrail.sound move hmove).placed.open_iff⟩

end Search
end CloudTemplate
