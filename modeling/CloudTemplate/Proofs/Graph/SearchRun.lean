import CloudTemplate.Proofs.Graph.Incidence
import CloudTemplate.Proofs.Graph.SearchClose

/-!
# The depth-first search comes to an end

What is still to be done is counted by `Search.pending`: one for every edge
that has not been followed and one for every node that has not been left.
Every step takes one off (`pending_step`), and to begin with there are as many
as the search has steps (`pending_start`), so each visit ends with an empty
path.

Main statement: `visit_all` describes the state after all nodes were visited.
-/

namespace CloudTemplate
namespace Search

open DependencyGraph

variable {g : DependencyGraph} {s : Search} {u v : String}

section Weight

/-- What entering a node will add to the work: its edges and leaving it. -/
def weight (g : DependencyGraph) (s : Search) (id : String) : Nat :=
  if s.marks.contains id then 0 else (g.dependencies id).length + 1

/-- The number of steps still to be done once every node will be visited. -/
def pending (g : DependencyGraph) (s : Search) : Nat :=
  (s.frames.map fun f => f.2.length + 1).sum + (g.ids.map (s.weight g)).sum

theorem weight_of_entered (hu : s.Entered u) : s.weight g u = 0 :=
  if_pos (NameTable.contains_iff.2 hu)

theorem weight_of_fresh (hu : ¬ s.Entered u) :
    s.weight g u = (g.dependencies u).length + 1 :=
  if_neg fun h => hu (NameTable.contains_iff.1 h)

theorem weight_congr {t : Search} (h : s.Entered u ↔ t.Entered u) :
    s.weight g u = t.weight g u := by
  by_cases hu : s.Entered u
  · rw [weight_of_entered hu, weight_of_entered (h.1 hu)]
  · rw [weight_of_fresh hu, weight_of_fresh fun ht => hu (h.2 ht)]

private theorem sum_map_update (f f' : String → Nat) {list : List String}
    (hnodup : list.Nodup) (hu : u ∈ list)
    (hsame : ∀ x ∈ list, x ≠ u → f' x = f x) :
    (list.map f').sum + f u = (list.map f).sum + f' u := by
  induction list with
  | nil => simp at hu
  | cons head rest ih =>
      obtain ⟨hnot, hrest⟩ := List.nodup_cons.1 hnodup
      simp only [List.map_cons, List.sum_cons]
      by_cases h : u = head
      · subst h
        have hmap : rest.map f' = rest.map f := by
          refine List.map_congr_left fun x hx => ?_
          exact hsame x (List.mem_cons_of_mem _ hx) fun e => hnot (e ▸ hx)
        rw [hmap]
        omega
      · have hu' : u ∈ rest := (List.mem_cons.1 hu).resolve_left h
        have hih := ih hrest hu' fun x hx => hsame x (List.mem_cons_of_mem _ hx)
        have hhead := hsame head (List.mem_cons_self ..) fun e => h e.symm
        omega

/-- Entering a node turns its weight into a frame. -/
theorem sum_weight_enter (hfresh : ¬ s.Entered u) (hnode : u ∈ g.ids) :
    (g.ids.map ((s.enter g u).weight g)).sum + ((g.dependencies u).length + 1) =
      (g.ids.map (s.weight g)).sum := by
  have hentered : (s.enter g u).Entered u := (entered_enter g s u u).2 (Or.inl rfl)
  have h := sum_map_update (s.weight g) ((s.enter g u).weight g)
    g.nodup_ids hnode fun x _ hx => weight_congr (by simp [entered_enter, hx])
  rw [weight_of_fresh hfresh, weight_of_entered hentered] at h
  exact h

theorem pending_enter (hfresh : ¬ s.Entered u) (hnode : u ∈ g.ids) :
    (s.enter g u).pending g = s.pending g := by
  have h := sum_weight_enter hfresh hnode
  unfold pending
  rw [← h]
  simp only [Search.enter, List.map_cons, List.sum_cons]
  omega

theorem pending_eq_of_entered {t : Search}
    (hentered : ∀ x, t.Entered x ↔ s.Entered x) :
    t.pending g + (s.frames.map fun f => f.2.length + 1).sum =
      s.pending g + (t.frames.map fun f => f.2.length + 1).sum := by
  have hweight : g.ids.map (t.weight g) = g.ids.map (s.weight g) :=
    List.map_congr_left fun x _ => weight_congr (hentered x)
  unfold pending
  rw [hweight]
  omega

end Weight

section Step

theorem entered_leave (node : String) :
    (s.leave node).Entered u ↔ s.Entered u := by
  unfold leave
  split
  · rfl
  · split <;> split <;> simp

theorem frames_leave (node : String) : (s.leave node).frames = s.frames := by
  unfold leave
  split
  · rfl
  · split <;> split <;> simp

/-- Every step takes one off what is still to be done. -/
theorem pending_step (hs : s.Sound g) (hframes : s.frames ≠ []) :
    (s.step g).pending g + 1 = s.pending g := by
  rcases hsplit : s.frames with _ | ⟨⟨node, _ | ⟨succ, rest⟩⟩, below⟩
  · exact absurd hsplit hframes
  · have hstep : s.step g = (s.shortened below).leave node := by
      simp [Search.step, hsplit, shortened]
    have h := pending_eq_of_entered (g := g) (s := s)
      (t := (s.shortened below).leave node) fun x => entered_leave node
    rw [frames_leave, hsplit] at h
    simp only [shortened, List.map_cons, List.sum_cons, List.length_nil] at h
    rw [hstep]
    simp only [shortened]
    omega
  · have hedge : g.Edge node succ := by
      have hsuffix := hs.placed.rest_suffix (node, succ :: rest) (by simp [hsplit])
      exact hsuffix.subset (List.mem_cons_self ..)
    cases hget : s.marks.get? succ with
    | none =>
        have hfresh : ¬ ({ s with frames := (node, rest) :: below }).Entered succ :=
          NameTable.get?_eq_none_iff.1 hget
        have hstep : s.step g =
            ({ s with frames := (node, rest) :: below }).enter g succ := by
          simp [Search.step, hsplit, hget]
        rw [hstep, pending_enter hfresh hedge.target_mem]
        have h := pending_eq_of_entered (g := g) (s := s)
          (t := { s with frames := (node, rest) :: below }) fun x => Iff.rfl
        rw [hsplit] at h
        simp only [List.map_cons, List.sum_cons, List.length_cons] at h
        omega
    | some mark =>
        have hstep : (s.step g).frames = (node, rest) :: below ∧
            ∀ x, (s.step g).Entered x ↔ s.Entered x := by
          simp only [Search.step, hsplit, hget]
          split
          · exact ⟨rfl, fun x => entered_lower ..⟩
          · exact ⟨rfl, fun x => Iff.rfl⟩
        have h := pending_eq_of_entered (g := g) (s := s) (t := s.step g) hstep.2
        rw [hstep.1, hsplit] at h
        simp only [List.map_cons, List.sum_cons, List.length_cons] at h
        omega

/-- What was entered stays entered. -/
theorem entered_step (hu : s.Entered u) : (s.step g).Entered u := by
  rcases hsplit : s.frames with _ | ⟨⟨node, _ | ⟨succ, rest⟩⟩, below⟩
  · simpa [Search.step, hsplit] using hu
  · simp only [Search.step, hsplit]
    exact (entered_leave node).2 hu
  · simp only [Search.step, hsplit]
    split
    · exact (entered_enter ..).2 (Or.inr hu)
    · split
      · exact (entered_lower ..).2 hu
      · exact hu

end Step

section Run

/-- With as many steps as are still to be done, the path is emptied. -/
theorem run_spec (steps : Nat) (hs : s.Sound g) (hsteps : s.pending g ≤ steps) :
    (s.run g steps).Sound g ∧ (s.run g steps).frames = [] ∧
      (s.run g steps).pending g ≤ s.pending g ∧
      ∀ x, s.Entered x → (s.run g steps).Entered x := by
  induction steps generalizing s with
  | zero =>
      have hframes : s.frames = [] := by
        cases hsplit : s.frames with
        | nil => rfl
        | cons f below =>
            simp only [pending, hsplit, List.map_cons, List.sum_cons] at hsteps
            omega
      exact ⟨hs, hframes, le_rfl, fun x hx => hx⟩
  | succ steps ih =>
      unfold run
      by_cases hframes : s.frames = []
      · rw [if_pos (by simp [hframes])]
        exact ⟨hs, hframes, le_rfl, fun x hx => hx⟩
      · rw [if_neg (by simp [hframes])]
        have hstep := pending_step hs hframes
        obtain ⟨hsound, hempty, hle, hmono⟩ := ih hs.step (by omega)
        exact ⟨hsound, hempty, by omega, fun x hx => hmono x (entered_step hx)⟩

/-- The search between two visits. -/
structure AtRest (g : DependencyGraph) (s : Search) : Prop where
  sound : s.Sound g
  frames : s.frames = []
  pending_le : s.pending g ≤ stepCount g

/-- Between two visits no component is open. -/
theorem AtRest.stack_eq_nil (hs : s.AtRest g) : s.stack = [] := by
  refine List.eq_nil_iff_forall_not_mem.2 fun u hu => ?_
  obtain ⟨p, hp, -⟩ := hs.sound.reaches_below u hu
  simp [path, hs.frames] at hp

/-- A visit starts and ends at rest, and enters the node that it is for. -/
theorem AtRest.visit (hs : s.AtRest g) (hroot : u ∈ g.ids) :
    (s.visit g (stepCount g) u).AtRest g ∧
      (s.visit g (stepCount g) u).Entered u ∧
      ∀ x, s.Entered x → (s.visit g (stepCount g) u).Entered x := by
  unfold Search.visit
  by_cases hentered : s.Entered u
  · rw [if_pos (NameTable.contains_iff.2 hentered)]
    exact ⟨hs, hentered, fun x hx => hx⟩
  · rw [if_neg fun h => hentered (NameTable.contains_iff.1 h)]
    have hpath : ∀ p ∈ s.path, g.Reaches p u := by simp [path, hs.frames]
    have hpending := pending_enter hentered hroot
    have hle := hs.pending_le
    obtain ⟨hsound, hempty, hrun, hmono⟩ :=
      run_spec (stepCount g) (hs.sound.enter hentered hroot hpath) (by omega)
    refine ⟨⟨hsound, hempty, by omega⟩, ?_, ?_⟩
    · exact hmono u ((entered_enter ..).2 (Or.inl rfl))
    · exact fun x hx => hmono x ((entered_enter ..).2 (Or.inr hx))

theorem AtRest.visits (roots : List String) (hroots : ∀ u ∈ roots, u ∈ g.ids)
    (hs : s.AtRest g) :
    (roots.foldl (Search.visit g (stepCount g)) s).AtRest g ∧
      (∀ u ∈ roots, (roots.foldl (Search.visit g (stepCount g)) s).Entered u) ∧
      ∀ x, s.Entered x → (roots.foldl (Search.visit g (stepCount g)) s).Entered x := by
  induction roots generalizing s with
  | nil => exact ⟨hs, by simp, fun x hx => hx⟩
  | cons root rest ih =>
      obtain ⟨hvisit, hroot, hmono⟩ := hs.visit (hroots root (List.mem_cons_self ..))
      obtain ⟨hrest, hall, hkeep⟩ :=
        ih (fun u hu => hroots u (List.mem_cons_of_mem _ hu)) hvisit
      rw [List.foldl_cons]
      refine ⟨hrest, fun u hu => ?_, fun x hx => hkeep x (hmono x hx)⟩
      rcases List.mem_cons.1 hu with heq | hu
      · exact heq ▸ hkeep root hroot
      · exact hall u hu

theorem stepCount_eq_sum (g : DependencyGraph) :
    stepCount g = (g.ids.map fun id => (g.dependencies id).length + 1).sum := by
  have hnodes : (g.ids.map fun _ => 1).sum = g.nodeCount := by
    rw [List.map_const', List.sum_replicate_nat, Nat.mul_one]
    exact NameTable.length_names _
  rw [List.sum_map_add, hnodes, ← edgeCount_eq_sum, Nat.add_comm]
  rfl

/-- To begin with, every node is to be left and every edge to be followed. -/
theorem pending_start (g : DependencyGraph) : start.pending g = stepCount g := by
  rw [stepCount_eq_sum]
  unfold pending
  simp only [start, List.map_nil, List.sum_nil, Nat.zero_add]
  refine congrArg List.sum (List.map_congr_left fun id _ => ?_)
  exact weight_of_fresh (by simp [Entered])

theorem atRest_start (g : DependencyGraph) : start.AtRest g :=
  ⟨sound_start g, rfl, (pending_start g).le⟩

/-- After all nodes were visited, every node stands in a closed component. -/
theorem visit_all (g : DependencyGraph) :
    (g.ids.foldl (Search.visit g (stepCount g)) start).Settled g ∧
      ∀ u, (g.ids.foldl (Search.visit g (stepCount g)) start).Closed u ↔
        u ∈ g.ids := by
  obtain ⟨hrest, hall, -⟩ :=
    (atRest_start g).visits g.ids fun u hu => hu
  have hsound := hrest.sound
  refine ⟨hsound.settled, fun u => ?_⟩
  have hstack : u ∉ (g.ids.foldl (Search.visit g (stepCount g)) start).stack := by
    simp [hrest.stack_eq_nil]
  rw [hsound.settled.closed_iff]
  exact ⟨fun h => hsound.placed.entered_ids u h.1, fun hu => ⟨hall u hu, hstack⟩⟩

end Run

end Search
end CloudTemplate
