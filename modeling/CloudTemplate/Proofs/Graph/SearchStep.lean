import CloudTemplate.Proofs.Graph.SearchState

/-!
# One step of the depth-first search

A step either follows an edge or leaves a node.  Following an edge enters its
target, or lowers the lowlink of its source, or does nothing; leaving a node
passes its lowlink on to its predecessor and may close a component.

This module shows of each of these moves but the last that it keeps
`Search.Sound`: `Sound.lower`, `Sound.enter`, `Sound.advance`, `Sound.shorten`.
-/

namespace CloudTemplate
namespace Search

variable {g : DependencyGraph} {s : Search} {u v w : String}

theorem Sound.path_entered
    (hs : s.Sound g) (hu : u ∈ s.path) : s.Entered u :=
  hs.placed.stack_entered u (hs.placed.path_stack u hu)

section Lower

theorem Placed.lower
    (hs : s.Placed g) (i : Nat) : (s.lower u i).Placed g where
  entered_ids := by simpa using hs.entered_ids
  index_lt := by simpa using hs.index_lt
  stack_entered := by simpa using hs.stack_entered
  stack_desc := by simpa using hs.stack_desc
  open_iff := by simpa using hs.open_iff
  path_stack := hs.path_stack
  path_desc := by simpa using hs.path_desc
  rest_suffix := hs.rest_suffix
  followed_entered := by
    intro x y hx hfollowed
    rw [entered_lower] at hx ⊢
    exact hs.followed_entered x y hx hfollowed

theorem Settled.lower
    (hs : s.Settled g) (i : Nat) : (s.lower u i).Settled g where
  closed_iff := by
    intro x
    rw [entered_lower]
    exact hs.closed_iff x
  nonempty := hs.nonempty
  connected := hs.connected
  edge_closed := hs.edge_closed
  disjoint := hs.disjoint
  ordered := hs.ordered

/-- A lowlink may be lowered to the index of any open node that is reached. -/
theorem Sound.lower
    (hs : s.Sound g) (hv : v ∈ s.stack) (hreach : g.Reaches u v) :
    (s.lower u (s.index v)).Sound g where
  placed := hs.placed.lower _
  settled := hs.settled.lower _
  reaches_above := by simpa using hs.reaches_above
  reaches_below := by simpa using hs.reaches_below
  low_le := by
    intro x hx
    have hle := hs.low_le x hx
    rw [low_lower, index_lower]
    split <;> omega
  low_reaches := by
    intro x hx
    obtain ⟨y, hy, hindex, hpath⟩ := hs.low_reaches x hx
    simp only [index_lower, low_lower]
    by_cases hxu : u = x
    · subst hxu
      rcases Nat.le_total (s.low u) (s.index v) with hle | hle
      · exact ⟨y, hy, by simp [hindex, hle], hpath⟩
      · exact ⟨v, hv, by simp [hle], hreach⟩
    · exact ⟨y, hy, by simp [hindex, hxu], hpath⟩
  low_followed := by
    intro x hx y hy hfollowed
    obtain ⟨p, hp, hcharge, hlow⟩ := hs.low_followed x hx y hy hfollowed
    refine ⟨p, hp, by simpa [InCharge] using hcharge, ?_⟩
    rw [low_lower, index_lower]
    split <;> omega

end Lower

section Enter

theorem index_enter_self : (s.enter g u).index u = s.marks.size := by
  rw [index_enter, if_pos rfl]

theorem low_enter_self : (s.enter g u).low u = s.marks.size := by
  rw [low_enter, if_pos rfl]

theorem index_enter_of_entered
    (hfresh : ¬ s.Entered u) (hv : s.Entered v) :
    (s.enter g u).index v = s.index v := by
  rw [index_enter, if_neg]
  intro heq
  exact hfresh (heq ▸ hv)

theorem low_enter_of_entered
    (hfresh : ¬ s.Entered u) (hv : s.Entered v) :
    (s.enter g u).low v = s.low v := by
  rw [low_enter, if_neg]
  intro heq
  exact hfresh (heq ▸ hv)

/-- No edge from the new node has been followed. -/
theorem not_followed_enter_self : ¬ (s.enter g u).Followed g u v := by
  rintro ⟨hedge, hrest⟩
  exact hrest (g.dependencies u) (List.mem_cons_self ..) hedge

theorem followed_of_followed_enter
    (hfollowed : (s.enter g w).Followed g u v) : s.Followed g u v :=
  ⟨hfollowed.1, fun rest hrest =>
    hfollowed.2 rest (List.mem_cons_of_mem _ hrest)⟩

theorem Placed.enter
    (hs : s.Placed g) (hfresh : ¬ s.Entered u) (hnode : u ∈ g.ids) :
    (s.enter g u).Placed g where
  entered_ids := by
    intro x hx
    rcases (entered_enter g s u x).1 hx with heq | hx
    · rw [heq]
      exact hnode
    · exact hs.entered_ids x hx
  index_lt := by
    intro x hx
    rw [size_enter g s u hfresh]
    rcases (entered_enter g s u x).1 hx with heq | hx
    · rw [heq, index_enter_self]
      omega
    · have hlt := hs.index_lt x hx
      rw [index_enter_of_entered hfresh hx]
      omega
  stack_entered := by
    intro x hx
    rcases List.mem_cons.1 hx with heq | hx
    · exact (entered_enter g s u x).2 (Or.inl heq)
    · exact (entered_enter g s u x).2 (Or.inr (hs.stack_entered x hx))
  stack_desc := by
    refine List.pairwise_cons.2 ⟨fun x hx => ?_, ?_⟩
    · rw [index_enter_self, index_enter_of_entered hfresh (hs.stack_entered x hx)]
      exact hs.index_lt x (hs.stack_entered x hx)
    · refine hs.stack_desc.imp_of_mem fun hx hy hdesc => ?_
      rw [index_enter_of_entered hfresh (hs.stack_entered _ hx),
        index_enter_of_entered hfresh (hs.stack_entered _ hy)]
      exact hdesc
  open_iff := by
    intro x
    rw [mark_enter]
    by_cases hx : u = x
    · subst hx
      simp [Search.enter]
    · have hx' : ¬ x = u := fun h => hx h.symm
      simp [Search.enter, hx, hx', hs.open_iff]
  path_stack := by
    intro p hp
    rcases List.mem_cons.1 hp with heq | hp
    · rw [heq]
      exact List.mem_cons_self ..
    · exact List.mem_cons_of_mem _ (hs.path_stack p hp)
  path_desc := by
    have hentered : ∀ p ∈ s.path, s.Entered p := fun p hp =>
      hs.stack_entered p (hs.path_stack p hp)
    refine List.pairwise_cons.2 ⟨fun p hp => ?_, ?_⟩
    · rw [index_enter_self, index_enter_of_entered hfresh (hentered p hp)]
      exact hs.index_lt p (hentered p hp)
    · refine hs.path_desc.imp_of_mem fun hp hq hdesc => ?_
      rw [index_enter_of_entered hfresh (hentered _ hp),
        index_enter_of_entered hfresh (hentered _ hq)]
      exact hdesc
  rest_suffix := by
    intro f hf
    rcases List.mem_cons.1 hf with heq | hf
    · subst heq
      exact List.suffix_refl _
    · exact hs.rest_suffix f hf
  followed_entered := by
    intro x y hx hfollowed
    rcases (entered_enter g s u x).1 hx with heq | hx
    · subst heq
      exact absurd hfollowed not_followed_enter_self
    · have hy := hs.followed_entered x y hx (followed_of_followed_enter hfollowed)
      exact (entered_enter g s u y).2 (Or.inr hy)

theorem Settled.enter
    (hs : s.Settled g) (hfresh : ¬ s.Entered u) :
    (s.enter g u).Settled g where
  closed_iff := by
    intro x
    show s.Closed x ↔ _ ∧ x ∉ u :: s.stack
    rw [hs.closed_iff x, entered_enter]
    by_cases hx : x = u
    · subst hx
      simp [hfresh]
    · simp [hx]
  nonempty := hs.nonempty
  connected := hs.connected
  edge_closed := hs.edge_closed
  disjoint := hs.disjoint
  ordered := hs.ordered

/-- A new node may be entered that every node of the path reaches. -/
theorem Sound.enter
    (hs : s.Sound g) (hfresh : ¬ s.Entered u) (hnode : u ∈ g.ids)
    (hreach : ∀ p ∈ s.path, g.Reaches p u) :
    (s.enter g u).Sound g where
  placed := hs.placed.enter hfresh hnode
  settled := hs.settled.enter hfresh
  reaches_above := by
    intro p hp x hx hle
    rcases List.mem_cons.1 hx with hxu | hx
    · rw [hxu]
      rcases List.mem_cons.1 hp with hpu | hp
      · rw [hpu]
        exact DependencyGraph.Reaches.refl u
      · exact hreach p hp
    · have hentered := hs.placed.stack_entered x hx
      rw [index_enter_of_entered hfresh hentered] at hle
      rcases List.mem_cons.1 hp with hpu | hp
      · have hlt := hs.placed.index_lt x hentered
        rw [hpu, index_enter_self] at hle
        omega
      · rw [index_enter_of_entered hfresh (hs.path_entered hp)] at hle
        exact hs.reaches_above p hp x hx hle
  reaches_below := by
    intro x hx
    rcases List.mem_cons.1 hx with hxu | hx
    · refine ⟨u, List.mem_cons_self .., ?_, ?_⟩
      · rw [hxu]
      · rw [hxu]
        exact DependencyGraph.Reaches.refl u
    · obtain ⟨p, hp, hle, hto⟩ := hs.reaches_below x hx
      refine ⟨p, List.mem_cons_of_mem _ hp, ?_, hto⟩
      rw [index_enter_of_entered hfresh (hs.path_entered hp),
        index_enter_of_entered hfresh (hs.placed.stack_entered x hx)]
      exact hle
  low_le := by
    intro x hx
    rcases List.mem_cons.1 hx with hxu | hx
    · rw [hxu, index_enter_self, low_enter_self]
    · have hentered := hs.placed.stack_entered x hx
      rw [index_enter_of_entered hfresh hentered, low_enter_of_entered hfresh hentered]
      exact hs.low_le x hx
  low_reaches := by
    intro x hx
    rcases List.mem_cons.1 hx with hxu | hx
    · refine ⟨u, List.mem_cons_self .., ?_, ?_⟩
      · rw [hxu, index_enter_self, low_enter_self]
      · rw [hxu]
        exact DependencyGraph.Reaches.refl u
    · obtain ⟨y, hy, heq, hto⟩ := hs.low_reaches x hx
      refine ⟨y, List.mem_cons_of_mem _ hy, ?_, hto⟩
      rw [index_enter_of_entered hfresh (hs.placed.stack_entered y hy),
        low_enter_of_entered hfresh (hs.placed.stack_entered x hx)]
      exact heq
  low_followed := by
    intro x hx y hy hfollowed
    rcases List.mem_cons.1 hx with hxu | hx
    · subst hxu
      exact absurd hfollowed not_followed_enter_self
    have hxe := hs.placed.stack_entered x hx
    have hfollowed := followed_of_followed_enter hfollowed
    have hye := hs.placed.followed_entered x y hxe hfollowed
    rcases List.mem_cons.1 hy with hyu | hy
    · exact absurd (hyu ▸ hye) hfresh
    obtain ⟨p, hp, ⟨hle, hmax⟩, hlow⟩ := hs.low_followed x hx y hy hfollowed
    have hpe := hs.path_entered hp
    refine ⟨p, List.mem_cons_of_mem _ hp, ⟨?_, ?_⟩, ?_⟩
    · rw [index_enter_of_entered hfresh hpe, index_enter_of_entered hfresh hxe]
      exact hle
    · intro q hq hqle
      rw [index_enter_of_entered hfresh hxe] at hqle
      rw [index_enter_of_entered hfresh hpe]
      rcases List.mem_cons.1 hq with hqu | hq
      · have hlt := hs.placed.index_lt x hxe
        rw [hqu, index_enter_self] at hqle
        omega
      · rw [index_enter_of_entered hfresh (hs.path_entered hq)] at hqle ⊢
        exact hmax q hq hqle
    · rw [low_enter_of_entered hfresh hpe, index_enter_of_entered hfresh hye]
      exact hlow

end Enter

section Advance

variable {node succ : String} {rest : List String}
  {above below : List (String × List String)}

/-- The state once the next successor of a node of the path is being dealt
with. -/
def advanced (s : Search) (above : List (String × List String)) (node : String)
    (rest : List String) (below : List (String × List String)) : Search :=
  { s with frames := above ++ (node, rest) :: below }

theorem path_advanced
    (hframes : s.frames = above ++ (node, succ :: rest) :: below) :
    (s.advanced above node rest below).path = s.path := by
  simp [path, advanced, hframes]

/-- Advancing follows one more edge. -/
theorem followed_advanced
    (hframes : s.frames = above ++ (node, succ :: rest) :: below)
    (hfollowed : (s.advanced above node rest below).Followed g u v) :
    s.Followed g u v ∨ u = node ∧ v = succ := by
  obtain ⟨hedge, hrest⟩ := hfollowed
  by_cases h : u = node ∧ v = succ
  · exact Or.inr h
  refine Or.inl ⟨hedge, fun r hr => ?_⟩
  rw [hframes, List.mem_append, List.mem_cons] at hr
  rcases hr with hr | heq | hr
  · exact hrest r (List.mem_append_left _ hr)
  · simp only [Prod.mk.injEq] at heq
    obtain ⟨hu, rfl⟩ := heq
    subst hu
    have hnew := hrest rest (by simp [advanced])
    intro hv
    rcases List.mem_cons.1 hv with heq | hv
    · exact h ⟨rfl, heq⟩
    · exact hnew hv
  · exact hrest r (List.mem_append_right _ (List.mem_cons_of_mem _ hr))

theorem Placed.advance
    (hs : s.Placed g) (hframes : s.frames = above ++ (node, succ :: rest) :: below)
    (hentered : s.Entered succ) :
    (s.advanced above node rest below).Placed g where
  entered_ids := hs.entered_ids
  index_lt := hs.index_lt
  stack_entered := hs.stack_entered
  stack_desc := hs.stack_desc
  open_iff := hs.open_iff
  path_stack := by
    rw [path_advanced hframes]
    exact hs.path_stack
  path_desc := by
    rw [path_advanced hframes]
    exact hs.path_desc
  rest_suffix := by
    intro f hf
    have hold := hs.rest_suffix
    rw [hframes] at hold
    rcases List.mem_append.1 hf with hf | hf
    · exact hold f (List.mem_append_left _ hf)
    · rcases List.mem_cons.1 hf with heq | hf
      · rw [heq]
        have h := hold (node, succ :: rest) (by simp)
        exact (List.suffix_cons succ rest).trans h
      · exact hold f (List.mem_append_right _ (List.mem_cons_of_mem _ hf))
  followed_entered := by
    intro x y hx hfollowed
    rcases followed_advanced hframes hfollowed with hfollowed | ⟨-, heq⟩
    · exact hs.followed_entered x y hx hfollowed
    · exact heq ▸ hentered

/-- An edge counts as followed once its target is entered and, if that is
open, the lowlink of its source is no greater than the target's index. -/
theorem Sound.advance
    (hs : s.Sound g) (hframes : s.frames = above ++ (node, succ :: rest) :: below)
    (hentered : s.Entered succ)
    (hlow : succ ∈ s.stack → s.low node ≤ s.index succ) :
    (s.advanced above node rest below).Sound g where
  placed := hs.placed.advance hframes hentered
  settled := ⟨hs.settled.closed_iff, hs.settled.nonempty, hs.settled.connected,
    hs.settled.edge_closed, hs.settled.disjoint, hs.settled.ordered⟩
  reaches_above := by
    rw [path_advanced hframes]
    exact hs.reaches_above
  reaches_below := by
    rw [path_advanced hframes]
    exact hs.reaches_below
  low_le := hs.low_le
  low_reaches := hs.low_reaches
  low_followed := by
    intro x hx y hy hfollowed
    unfold InCharge
    rw [path_advanced hframes]
    rcases followed_advanced hframes hfollowed with hfollowed | ⟨hxn, hys⟩
    · exact hs.low_followed x hx y hy hfollowed
    · have hnode : node ∈ s.path := by simp [path, hframes]
      refine ⟨node, hnode, ⟨?_, ?_⟩, ?_⟩
      · rw [hxn]
      · intro q hq hle
        rw [hxn] at hle
        exact hle
      · rw [hys] at hy ⊢
        exact hlow hy

end Advance

section Leave

variable {node : String} {below : List (String × List String)}

/-- The state once the latest node of the path is left. -/
def shortened (s : Search) (below : List (String × List String)) : Search :=
  { s with frames := below }

theorem path_eq_cons
    (hframes : s.frames = (node, []) :: below) :
    s.path = node :: (s.shortened below).path := by
  simp [path, shortened, hframes]

/-- Leaving a node without further successors follows no further edge. -/
theorem followed_of_shortened
    (hframes : s.frames = (node, []) :: below)
    (hfollowed : (s.shortened below).Followed g u v) :
    s.Followed g u v := by
  refine ⟨hfollowed.1, fun rest hrest => ?_⟩
  rw [hframes] at hrest
  rcases List.mem_cons.1 hrest with heq | hrest
  · simp only [Prod.mk.injEq] at heq
    simp [heq.2]
  · exact hfollowed.2 rest hrest

theorem Sound.index_lt_of_path_shortened
    (hs : s.Sound g) (hframes : s.frames = (node, []) :: below)
    (hu : u ∈ (s.shortened below).path) : s.index u < s.index node := by
  have hdesc := hs.placed.path_desc
  rw [path_eq_cons hframes] at hdesc
  exact (List.pairwise_cons.1 hdesc).1 u hu

theorem Sound.top_mem_stack
    (hs : s.Sound g) (hframes : s.frames = (node, []) :: below) :
    node ∈ s.stack :=
  hs.placed.path_stack node (by simp [path_eq_cons hframes])

theorem Placed.shorten
    (hs : s.Placed g) (hframes : s.frames = (node, []) :: below) :
    (s.shortened below).Placed g where
  entered_ids := hs.entered_ids
  index_lt := hs.index_lt
  stack_entered := hs.stack_entered
  stack_desc := hs.stack_desc
  open_iff := hs.open_iff
  path_stack := by
    intro p hp
    have h := hs.path_stack
    rw [path_eq_cons hframes] at h
    exact h p (List.mem_cons_of_mem _ hp)
  path_desc := by
    have h := hs.path_desc
    rw [path_eq_cons hframes] at h
    exact (List.pairwise_cons.1 h).2
  rest_suffix := by
    intro f hf
    exact hs.rest_suffix f (hframes ▸ List.mem_cons_of_mem _ hf)
  followed_entered := by
    intro x y hx hfollowed
    exact hs.followed_entered x y hx (followed_of_shortened hframes hfollowed)

/-- A node may be left that gets back to a lesser index, once the lowlink of
its predecessor takes that into account. -/
theorem Sound.shorten
    {pred : String} {rest : List String} {below' : List (String × List String)}
    (hs : s.Sound g) (hframes : s.frames = (node, []) :: below)
    (hbelow : below = (pred, rest) :: below')
    (hlow : s.low node < s.index node) (hpred : s.low pred ≤ s.low node) :
    (s.shortened below).Sound g where
  placed := hs.placed.shorten hframes
  settled := ⟨hs.settled.closed_iff, hs.settled.nonempty, hs.settled.connected,
    hs.settled.edge_closed, hs.settled.disjoint, hs.settled.ordered⟩
  reaches_above := by
    intro p hp x hx hle
    refine hs.reaches_above p ?_ x hx hle
    rw [path_eq_cons hframes]
    exact List.mem_cons_of_mem _ hp
  reaches_below := by
    -- What only reached the node that is left reaches a node below it, too.
    intro x hx
    obtain ⟨p, hp, hle, hto⟩ := hs.reaches_below x hx
    rw [path_eq_cons hframes] at hp
    rcases List.mem_cons.1 hp with heq | hp
    · subst heq
      obtain ⟨y, hy, hindex, hpath⟩ :=
        hs.low_reaches p (hs.top_mem_stack hframes)
      obtain ⟨q, hq, hqle, hqto⟩ := hs.reaches_below y hy
      rw [path_eq_cons hframes] at hq
      rcases List.mem_cons.1 hq with hqp | hq
      · rw [hqp] at hqle
        omega
      · refine ⟨q, hq, ?_, (hto.trans hpath).trans hqto⟩
        show s.index q ≤ s.index x
        omega
    · exact ⟨p, hp, hle, hto⟩
  low_le := hs.low_le
  low_reaches := hs.low_reaches
  low_followed := by
    intro x hx y hy hfollowed
    obtain ⟨p, hp, ⟨hle, hmax⟩, hbound⟩ :=
      hs.low_followed x hx y hy (followed_of_shortened hframes hfollowed)
    rw [path_eq_cons hframes] at hp hmax
    rcases List.mem_cons.1 hp with heq | hp
    · subst heq
      have hmem : pred ∈ (s.shortened below).path := by
        simp [shortened, path, hbelow]
      have hlt := hs.index_lt_of_path_shortened hframes hmem
      refine ⟨pred, hmem, ⟨?_, ?_⟩, ?_⟩
      · show s.index pred ≤ s.index x
        omega
      · intro q hq _
        have hdesc := (hs.placed.shorten hframes).path_desc
        simp only [shortened, path, hbelow, List.map_cons] at hdesc hq
        rcases List.mem_cons.1 hq with heq | hq
        · rw [heq]
        · exact ((List.pairwise_cons.1 hdesc).1 q hq).le
      · show s.low pred ≤ s.index y
        omega
    · exact ⟨p, hp, ⟨hle, fun q hq => hmax q (List.mem_cons_of_mem _ hq)⟩, hbound⟩

end Leave

end Search
end CloudTemplate
