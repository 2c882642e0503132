import CloudTemplate.Proofs.Graph.SearchStep

/-!
# Closing a component

When a node is left that gets back no further than to itself, the nodes from
there to the top of the stack are a whole class of strongly connected nodes
(`Search.Sound.connected_top_iff`), and all edges out of them lead to closed
components.

With that, every step of the search keeps `Search.Sound`
(`Search.Sound.step`).
-/

namespace CloudTemplate
namespace Search

open DependencyGraph

variable {g : DependencyGraph} {s : Search} {node u v : String}
  {below : List (String × List String)}

section Top

/-- All edges from the node that is left, and from what lies above it, have
been followed. -/
theorem Sound.followed_of_top
    (hs : s.Sound g) (hframes : s.frames = (node, []) :: below)
    (hle : s.index node ≤ s.index u) (hedge : g.Edge u v) :
    s.Followed g u v := by
  refine ⟨hedge, fun rest hrest => ?_⟩
  rw [hframes] at hrest
  rcases List.mem_cons.1 hrest with heq | hrest
  · simp only [Prod.mk.injEq] at heq
    simp [heq.2]
  · have hpath : u ∈ (s.shortened below).path :=
      List.mem_map_of_mem (f := Prod.fst) hrest
    have hlt := hs.index_lt_of_path_shortened hframes hpath
    omega

variable (hs : s.Sound g) (hframes : s.frames = (node, []) :: below)
  (hroot : s.low node = s.index node)
include hs hframes hroot

/-- An edge from the top of the stack stays there or leads to a closed
component. -/
theorem Sound.edge_top
    (hu : u ∈ s.stack) (hle : s.index node ≤ s.index u) (hedge : g.Edge u v) :
    (v ∈ s.stack ∧ s.index node ≤ s.index v) ∨ s.Closed v := by
  have hfollowed := hs.followed_of_top hframes hle hedge
  have hentered := hs.placed.followed_entered u v
    (hs.placed.stack_entered u hu) hfollowed
  by_cases hv : v ∈ s.stack
  · left
    refine ⟨hv, ?_⟩
    obtain ⟨p, hp, ⟨-, hmax⟩, hlow⟩ := hs.low_followed u hu v hv hfollowed
    -- The node in charge can only be the one that is left.
    rw [path_eq_cons hframes] at hp hmax
    have hnode := hmax node (List.mem_cons_self ..) hle
    rcases List.mem_cons.1 hp with heq | hp
    · subst heq
      omega
    · have hlt := hs.index_lt_of_path_shortened hframes hp
      omega
  · exact Or.inr ((hs.settled.closed_iff v).2 ⟨hentered, hv⟩)

theorem Sound.reaches_top
    (hu : u ∈ s.stack) (hle : s.index node ≤ s.index u) (hreach : g.Reaches u v) :
    (v ∈ s.stack ∧ s.index node ≤ s.index v) ∨ s.Closed v := by
  induction hreach with
  | refl => exact Or.inl ⟨hu, hle⟩
  | tail _ hedge ih =>
      rcases ih with ⟨hmem, hindex⟩ | hclosed
      · exact hs.edge_top hframes hroot hmem hindex hedge
      · exact Or.inr (hs.settled.edge_closed _ _ hclosed hedge)

omit hframes hroot in
/-- From a closed component only closed components are reached. -/
theorem Sound.reaches_closed
    (hu : s.Closed u) (hreach : g.Reaches u v) : s.Closed v := by
  induction hreach with
  | refl => exact hu
  | tail _ hedge ih => exact hs.settled.edge_closed _ _ ih hedge

/-- The top of the stack is the class of the node that is left. -/
theorem Sound.connected_top_iff :
    g.Connected node v ↔ v ∈ s.stack ∧ s.index node ≤ s.index v := by
  have hnode := hs.top_mem_stack hframes
  have hpath : node ∈ s.path := by simp [path_eq_cons hframes]
  constructor
  · rintro ⟨hto, hback⟩
    rcases hs.reaches_top hframes hroot hnode le_rfl hto with h | hclosed
    · exact h
    · have hclosed' := hs.reaches_closed hclosed hback
      exact absurd hnode ((hs.settled.closed_iff node).1 hclosed').2
  · rintro ⟨hv, hle⟩
    refine ⟨hs.reaches_above node hpath v hv hle, ?_⟩
    obtain ⟨p, hp, -, hto⟩ := hs.reaches_below v hv
    -- A path node reached from the top is at the top, so it is the node itself.
    have hpstack := hs.placed.path_stack p hp
    rcases hs.reaches_top hframes hroot hv hle hto with ⟨-, hindex⟩ | hclosed
    · rw [path_eq_cons hframes] at hp
      rcases List.mem_cons.1 hp with heq | hp
      · exact heq ▸ hto
      · have hlt := hs.index_lt_of_path_shortened hframes hp
        omega
    · exact absurd hpstack ((hs.settled.closed_iff p).1 hclosed).2

end Top

section Close

/-- How popping through a node splits the stack. -/
structure Popped (s : Search) (node : String) (members left : List String) :
    Prop where
  pop : popThrough node s.stack = (members, left)
  mem_members : ∀ x, x ∈ members ↔ x ∈ s.stack ∧ s.index node ≤ s.index x
  mem_left : ∀ x, x ∈ left ↔ x ∈ s.stack ∧ s.index x < s.index node
  left_desc : left.Pairwise fun x y => s.index y < s.index x

theorem Placed.exists_popped
    (hs : s.Placed g) (hnode : node ∈ s.stack) :
    ∃ members left, s.Popped node members left := by
  obtain ⟨pre, post, hsplit⟩ := List.append_of_mem hnode
  have hdesc := hs.stack_desc
  rw [hsplit, List.pairwise_append, List.pairwise_cons] at hdesc
  obtain ⟨-, ⟨hpost, hpostDesc⟩, hpre⟩ := hdesc
  have habove : ∀ x ∈ pre, s.index node < s.index x := fun x hx =>
    hpre x hx node (List.mem_cons_self ..)
  have hnot : node ∉ pre := fun h => lt_irrefl _ (habove node h)
  refine ⟨pre ++ [node], post, ?_, ?_, ?_, hpostDesc⟩
  · rw [hsplit, popThrough_append hnot]
  · intro x
    rw [hsplit]
    simp only [List.mem_append, List.mem_cons, List.not_mem_nil, or_false]
    constructor
    · rintro (hx | rfl)
      · exact ⟨Or.inl hx, (habove x hx).le⟩
      · exact ⟨Or.inr (Or.inl rfl), le_rfl⟩
    · rintro ⟨hx | hx | hx, hle⟩
      · exact Or.inl hx
      · exact Or.inr hx
      · have hlt := hpost x hx
        omega
  · intro x
    rw [hsplit]
    simp only [List.mem_append, List.mem_cons]
    constructor
    · intro hx
      exact ⟨Or.inr (Or.inr hx), hpost x hx⟩
    · rintro ⟨hx | rfl | hx, hlt⟩
      · have := habove x hx
        omega
      · omega
      · exact hx

variable {members left : List String}

theorem Popped.stack_close
    (hpop : s.Popped node members left) : (s.close node).stack = left := by
  simp [Search.close, hpop.pop]

theorem Popped.closed_close
    (hpop : s.Popped node members left) :
    (s.close node).closed = NameSet.ofList members :: s.closed := by
  simp [Search.close, hpop.pop]

theorem Popped.closed_close_iff
    (hpop : s.Popped node members left) :
    (s.close node).Closed u ↔ u ∈ members ∨ s.Closed u := by
  simp [Closed, hpop.closed_close]

/-- The members and what is left make up the stack. -/
theorem Popped.not_mem_left_iff
    (hpop : s.Popped node members left) (hu : u ∈ s.stack) :
    u ∉ left ↔ u ∈ members := by
  rw [hpop.mem_left, hpop.mem_members]
  constructor
  · intro hnot
    refine ⟨hu, ?_⟩
    by_contra hlt
    exact hnot ⟨hu, by omega⟩
  · rintro ⟨-, hle⟩ ⟨-, hlt⟩
    omega

theorem Placed.close
    (hs : s.Placed g) (hpop : s.Popped node members left)
    (hpath : ∀ p ∈ s.path, s.index p < s.index node) :
    (s.close node).Placed g where
  entered_ids := by simpa using hs.entered_ids
  index_lt := by simpa using hs.index_lt
  stack_entered := by
    intro x hx
    rw [hpop.stack_close, hpop.mem_left] at hx
    rw [entered_close]
    exact hs.stack_entered x hx.1
  stack_desc := by
    rw [hpop.stack_close]
    simpa using hpop.left_desc
  open_iff := by
    intro x
    rw [hpop.stack_close, mark_close _ _ _ hpop.pop]
    show ((s.mark x).isOpen && !members.contains x) = true ↔ _
    rw [Bool.and_eq_true, hs.open_iff x]
    simp only [Bool.not_eq_true', List.contains_eq_mem, decide_eq_false_iff_not]
    constructor
    · rintro ⟨hx, hnot⟩
      by_contra hleft
      exact hnot ((hpop.not_mem_left_iff hx).1 hleft)
    · intro hleft
      have hx := ((hpop.mem_left x).1 hleft).1
      exact ⟨hx, fun hmem => (hpop.not_mem_left_iff hx).2 hmem hleft⟩
  path_stack := by
    intro p hp
    rw [hpop.stack_close, hpop.mem_left]
    exact ⟨hs.path_stack p hp, hpath p hp⟩
  path_desc := by simpa using hs.path_desc
  rest_suffix := hs.rest_suffix
  followed_entered := by
    intro x y hx hfollowed
    rw [entered_close] at hx ⊢
    exact hs.followed_entered x y hx hfollowed

theorem Settled.close
    (hs : s.Settled g) (hpop : s.Popped node members left)
    (hentered : ∀ x ∈ s.stack, s.Entered x) (hnode : node ∈ s.stack)
    (hclass : ∀ x, x ∈ members ↔ g.Connected node x)
    (hedges : ∀ x ∈ members, ∀ y, g.Edge x y → y ∈ members ∨ s.Closed y) :
    (s.close node).Settled g where
  closed_iff := by
    intro x
    rw [hpop.closed_close_iff, hs.closed_iff x, entered_close, hpop.stack_close]
    constructor
    · rintro (hmem | ⟨hx, hnot⟩)
      · have hstack := ((hpop.mem_members x).1 hmem).1
        exact ⟨hentered x hstack, (hpop.not_mem_left_iff hstack).2 hmem⟩
      · exact ⟨hx, fun hleft => hnot ((hpop.mem_left x).1 hleft).1⟩
    · rintro ⟨hx, hnot⟩
      by_cases hstack : x ∈ s.stack
      · exact Or.inl ((hpop.not_mem_left_iff hstack).1 hnot)
      · exact Or.inr ⟨hx, hstack⟩
  nonempty := by
    intro c hc
    rw [hpop.closed_close] at hc
    rcases List.mem_cons.1 hc with heq | hc
    · have hmem : node ∈ c.names := by
        rw [heq, NameSet.mem_names_ofList, hpop.mem_members]
        exact ⟨hnode, le_rfl⟩
      exact List.ne_nil_of_mem hmem
    · exact hs.nonempty c hc
  connected := by
    intro c hc x hx y
    rw [hpop.closed_close] at hc
    rcases List.mem_cons.1 hc with heq | hc
    · rw [heq, NameSet.mem_names_ofList, hclass] at hx
      rw [heq, NameSet.mem_names_ofList, hclass]
      exact ⟨fun hy => hx.symm.trans hy, fun hy => hx.trans hy⟩
    · exact hs.connected c hc x hx y
  edge_closed := by
    intro x y hx hedge
    rw [hpop.closed_close_iff] at hx ⊢
    rcases hx with hx | hx
    · exact hedges x hx y hedge
    · exact Or.inr (hs.edge_closed x y hx hedge)
  disjoint := by
    rw [hpop.closed_close]
    refine List.pairwise_cons.2 ⟨fun c hc x hx hmem => ?_, hs.disjoint⟩
    rw [NameSet.mem_names_ofList, hpop.mem_members] at hmem
    exact ((hs.closed_iff x).1 ⟨c, hc, hx⟩).2 hmem.1
  ordered := by
    rw [hpop.closed_close]
    refine List.pairwise_cons.2 ⟨fun c hc x hx y hy hedge => ?_, hs.ordered⟩
    rw [NameSet.mem_names_ofList, hpop.mem_members] at hy
    have hclosed := hs.edge_closed x y ⟨c, hc, hx⟩ hedge
    exact ((hs.closed_iff y).1 hclosed).2 hy.1

/-- A node may be left together with all of its class. -/
theorem Sound.close
    (hs : s.Sound g) (hframes : s.frames = (node, []) :: below)
    (hroot : s.low node = s.index node) :
    ((s.shortened below).close node).Sound g := by
  have hnode := hs.top_mem_stack hframes
  obtain ⟨members, left, hpop⟩ := hs.placed.exists_popped hnode
  have hpop : (s.shortened below).Popped node members left :=
    ⟨hpop.pop, hpop.mem_members, hpop.mem_left, hpop.left_desc⟩
  have hsub : ∀ x ∈ left, x ∈ s.stack ∧ s.index x < s.index node := fun x hx =>
    (hpop.mem_left x).1 hx
  -- What is in charge of a node that is left stays on the path.
  have hpath : ∀ p ∈ s.path, ∀ x ∈ left, s.index p ≤ s.index x →
      p ∈ (s.shortened below).path := by
    intro p hp x hx hle
    rw [path_eq_cons hframes] at hp
    rcases List.mem_cons.1 hp with heq | hp
    · have hlt := (hsub x hx).2
      rw [heq] at hle
      omega
    · exact hp
  have hsubPath : ∀ p ∈ (s.shortened below).path, p ∈ s.path := by
    intro p hp
    rw [path_eq_cons hframes]
    exact List.mem_cons_of_mem _ hp
  refine
    { placed := (hs.placed.shorten hframes).close hpop fun p hp =>
        hs.index_lt_of_path_shortened hframes hp
      settled := Settled.close ⟨hs.settled.closed_iff, hs.settled.nonempty,
        hs.settled.connected, hs.settled.edge_closed, hs.settled.disjoint,
        hs.settled.ordered⟩ hpop hs.placed.stack_entered hnode ?_ ?_
      reaches_above := ?_
      reaches_below := ?_
      low_le := ?_
      low_reaches := ?_
      low_followed := ?_ }
  · intro x
    rw [hs.connected_top_iff hframes hroot]
    exact hpop.mem_members x
  · intro x hx y hedge
    rw [hpop.mem_members] at hx
    rw [hpop.mem_members]
    exact hs.edge_top hframes hroot hx.1 hx.2 hedge
  · intro p hp x hx hle
    rw [hpop.stack_close] at hx
    simp only [index_close] at hle
    exact hs.reaches_above p (hsubPath p hp) x (hsub x hx).1 hle
  · intro x hx
    rw [hpop.stack_close] at hx
    obtain ⟨p, hp, hle, hto⟩ := hs.reaches_below x (hsub x hx).1
    refine ⟨p, hpath p hp x hx hle, ?_, hto⟩
    simp only [index_close]
    exact hle
  · intro x hx
    rw [hpop.stack_close] at hx
    rw [low_close, index_close]
    exact hs.low_le x (hsub x hx).1
  · intro x hx
    rw [hpop.stack_close] at hx
    obtain ⟨hstack, hlt⟩ := hsub x hx
    obtain ⟨y, hy, heq, hto⟩ := hs.low_reaches x hstack
    have hle := hs.low_le x hstack
    refine ⟨y, ?_, ?_, hto⟩
    · rw [hpop.stack_close, hpop.mem_left]
      exact ⟨hy, by show s.index y < s.index node; omega⟩
    · rw [low_close, index_close]
      exact heq
  · intro x hx y hy hfollowed
    rw [hpop.stack_close] at hx hy
    obtain ⟨p, hp, ⟨hle, hmax⟩, hlow⟩ := hs.low_followed x (hsub x hx).1 y
      (hsub y hy).1 (followed_of_shortened hframes hfollowed)
    refine ⟨p, hpath p hp x hx hle, ⟨?_, ?_⟩, ?_⟩
    · simp only [index_close]
      exact hle
    · intro q hq hqle
      simp only [index_close] at hqle ⊢
      exact hmax q (hsubPath q hq) hqle
    · rw [low_close, index_close]
      exact hlow

end Close

section Step

/-- Going back from a node keeps the invariant. -/
theorem Sound.leave
    (hs : s.Sound g) (hframes : s.frames = (node, []) :: below) :
    ((s.shortened below).leave node).Sound g := by
  have hnode := hs.top_mem_stack hframes
  obtain ⟨mark, hmark⟩ :=
    NameTable.mem_names_iff_get?.1 (hs.placed.stack_entered node hnode)
  have hvalue : s.mark node = mark := by simp [Search.mark, hmark]
  have hindex : mark.index = s.index node := by rw [Search.index, hvalue]
  have hlow : mark.lowlink = s.low node := by rw [low, hvalue]
  have hget : (s.shortened below).marks.get? node = some mark := hmark
  simp only [Search.leave, hget]
  cases hbelow : below with
  | nil =>
      subst hbelow
      -- Without a predecessor the node gets back no further than to itself.
      have hroot : s.low node = s.index node := by
        obtain ⟨v, hv, heq, -⟩ := hs.low_reaches node hnode
        obtain ⟨p, hp, hle, -⟩ := hs.reaches_below v hv
        have hnodeLe := hs.low_le node hnode
        simp only [path, hframes, List.map_cons, List.map_nil,
          List.mem_singleton] at hp
        rw [hp] at hle
        omega
      show (if mark.lowlink = mark.index then _ else _ : Search).Sound g
      rw [if_pos (by rw [hlow, hindex, hroot])]
      exact hs.close hframes hroot
  | cons frame below' =>
      obtain ⟨pred, rest⟩ := frame
      have hpred : pred ∈ (s.shortened below).path := by
        simp [path, shortened, hbelow]
      have hpredLt := hs.index_lt_of_path_shortened hframes hpred
      have hpredMem : pred ∈ s.path := by
        rw [path_eq_cons hframes]
        exact List.mem_cons_of_mem _ hpred
      have hne : ¬ pred = node := by
        intro heq
        rw [heq] at hpredLt
        omega
      -- The predecessor gets back to whatever the node gets back to.
      have hlowered : (s.lower pred mark.lowlink).Sound g := by
        obtain ⟨v, hv, heq, hto⟩ := hs.low_reaches node hnode
        have hreach := hs.reaches_above pred hpredMem node hnode hpredLt.le
        rw [hlow, ← heq]
        exact hs.lower hv (hreach.trans hto)
      have hlowNode : (s.lower pred mark.lowlink).low node = s.low node := by
        rw [low_lower, if_neg hne]
      have hlowPred : (s.lower pred mark.lowlink).low pred ≤ s.low node := by
        rw [low_lower, if_pos rfl, hlow]
        exact Nat.min_le_right _ _
      show (if mark.lowlink = mark.index then
        ((s.lower pred mark.lowlink).shortened ((pred, rest) :: below')).close node
        else (s.lower pred mark.lowlink).shortened ((pred, rest) :: below')).Sound g
      rw [← hbelow]
      by_cases hroot : mark.lowlink = mark.index
      · rw [if_pos hroot]
        refine hlowered.close hframes ?_
        rw [hlowNode, index_lower, ← hlow, ← hindex]
        exact hroot
      · rw [if_neg hroot]
        have hle := hs.low_le node hnode
        refine hlowered.shorten hframes hbelow ?_ ?_
        · rw [hlowNode, index_lower]
          omega
        · rw [hlowNode]
          exact hlowPred

/-- Every step of the search keeps the invariant. -/
theorem Sound.step (hs : s.Sound g) : (s.step g).Sound g := by
  rcases hframes : s.frames with _ | ⟨⟨node, _ | ⟨succ, rest⟩⟩, below⟩
  · simpa [Search.step, hframes] using hs
  · have hstep : s.step g = (s.shortened below).leave node := by
      simp [Search.step, hframes, shortened]
    rw [hstep]
    exact hs.leave hframes
  · have hnode : node ∈ s.path := by simp [path, hframes]
    have hstack := hs.placed.path_stack node hnode
    have hedge : g.Edge node succ := by
      have hsuffix := hs.placed.rest_suffix (node, succ :: rest) (by simp [hframes])
      exact hsuffix.subset (List.mem_cons_self ..)
    cases hget : s.marks.get? succ with
    | none =>
        have hstep : s.step g =
            (s.enter g succ).advanced [(succ, g.dependencies succ)] node rest below := by
          simp [Search.step, hframes, hget, Search.enter, advanced]
        have hfresh : ¬ s.Entered succ := NameTable.get?_eq_none_iff.1 hget
        have hreach : ∀ p ∈ s.path, g.Reaches p succ := by
          intro p hp
          refine (hs.reaches_above p hp node hstack ?_).tail hedge
          have hdesc := hs.placed.path_desc
          simp only [path, hframes, List.map_cons] at hdesc hp
          rcases List.mem_cons.1 hp with heq | hp
          · rw [heq]
          · exact ((List.pairwise_cons.1 hdesc).1 p hp).le
        have hentered := hs.placed.stack_entered node hstack
        have hsplit : (s.enter g succ).frames =
            [(succ, g.dependencies succ)] ++ (node, succ :: rest) :: below := by
          simp [Search.enter, hframes]
        rw [hstep]
        refine (hs.enter hfresh hedge.target_mem hreach).advance hsplit ?_ ?_
        · exact (entered_enter g s succ succ).2 (Or.inl rfl)
        · intro _
          have hlt := hs.placed.index_lt node hentered
          have hle := hs.low_le node hstack
          rw [index_enter_self, low_enter_of_entered hfresh hentered]
          omega
    | some mark =>
        have hentered : s.Entered succ :=
          NameTable.mem_names_iff_get?.2 ⟨mark, hget⟩
        have hvalue : s.mark succ = mark := by simp [Search.mark, hget]
        have hopen := hs.placed.open_iff succ
        rw [hvalue] at hopen
        by_cases hmark : mark.isOpen
        · have hstep : s.step g =
              (s.lower node (s.index succ)).advanced [] node rest below := by
            simp [Search.step, hframes, hget, hmark, Search.lower, advanced,
              Search.index, hvalue]
          rw [hstep]
          refine (hs.lower (hopen.1 hmark) hedge.reaches).advance hframes ?_ ?_
          · exact (entered_lower ..).2 hentered
          · intro _
            rw [low_lower, if_pos rfl, index_lower]
            exact Nat.min_le_right _ _
        · have hstep : s.step g = s.advanced [] node rest below := by
            simp [Search.step, hframes, hget, hmark, advanced]
          rw [hstep]
          refine hs.advance hframes hentered fun hsucc => ?_
          exact absurd (hopen.2 hsucc) hmark

end Step

end Search
end CloudTemplate
