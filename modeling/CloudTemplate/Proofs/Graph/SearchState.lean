import CloudTemplate.Graph.Component
import CloudTemplate.Proofs.Graph.Reachability

/-!
# What holds throughout the depth-first search

The search keeps three collections: the stack of the open nodes, the path of
the nodes whose successors are being visited, and the closed components.

The invariant `Search.Sound` has three parts.

* `Search.Placed`: indices descend along the stack and along the path, the
  path lies on the stack, and exactly the nodes of the stack are open.
* `Search.Settled`: the closed components are classes of strongly connected
  nodes, and no edge leaves them but to components closed before.
* How the stack hangs together: a node of the path reaches everything above
  it, every open node reaches some node of the path below it, and a lowlink
  is the index of an open node that can be reached.  No edge that was followed
  leads below the lowlink of the path node in charge of its source.
-/

namespace CloudTemplate
namespace Search

/-- What is known of a node; of a node not entered, nothing. -/
def mark (s : Search) (id : String) : Mark :=
  (s.marks.get? id).getD ⟨0, 0, false⟩

def index (s : Search) (id : String) : Nat := (s.mark id).index

def low (s : Search) (id : String) : Nat := (s.mark id).lowlink

/-- The search has come to the node. -/
def Entered (s : Search) (id : String) : Prop := id ∈ s.marks.names

/-- The nodes whose successors are being visited, the latest first. -/
def path (s : Search) : List String := s.frames.map Prod.fst

/-- The edge leaves a node of whose successors the target is no longer to be
visited. -/
def Followed (g : DependencyGraph) (s : Search) (u v : String) : Prop :=
  g.Edge u v ∧ ∀ rest, (u, rest) ∈ s.frames → v ∉ rest

/-- Of the nodes of the path with no greater index than the second node, the
first one has the greatest index. -/
def InCharge (s : Search) (w u : String) : Prop :=
  s.index w ≤ s.index u ∧
    ∀ p ∈ s.path, s.index p ≤ s.index u → s.index p ≤ s.index w

/-- The node belongs to a closed component. -/
def Closed (s : Search) (id : String) : Prop :=
  ∃ c ∈ s.closed, id ∈ c.names

/-- Where entered nodes stand. -/
structure Placed (g : DependencyGraph) (s : Search) : Prop where
  entered_ids : ∀ u, s.Entered u → u ∈ g.ids
  index_lt : ∀ u, s.Entered u → s.index u < s.marks.size
  stack_entered : ∀ u ∈ s.stack, s.Entered u
  stack_desc : s.stack.Pairwise fun u v => s.index v < s.index u
  open_iff : ∀ u, (s.mark u).isOpen = true ↔ u ∈ s.stack
  path_stack : ∀ p ∈ s.path, p ∈ s.stack
  path_desc : s.path.Pairwise fun u v => s.index v < s.index u
  rest_suffix : ∀ f ∈ s.frames, f.2 <:+ g.dependencies f.1
  followed_entered : ∀ u v, s.Entered u → s.Followed g u v → s.Entered v

/-- What is known of closed components. -/
structure Settled (g : DependencyGraph) (s : Search) : Prop where
  closed_iff : ∀ u, s.Closed u ↔ s.Entered u ∧ u ∉ s.stack
  nonempty : ∀ c ∈ s.closed, c.names ≠ []
  connected : ∀ c ∈ s.closed, ∀ u ∈ c.names, ∀ v, v ∈ c.names ↔ g.Connected u v
  edge_closed : ∀ u v, s.Closed u → g.Edge u v → s.Closed v
  disjoint : s.closed.Pairwise fun later earlier =>
    ∀ u ∈ earlier.names, u ∉ later.names
  ordered : s.closed.Pairwise fun later earlier =>
    ∀ u ∈ earlier.names, ∀ v ∈ later.names, ¬ g.Edge u v

/-- What holds throughout the search. -/
structure Sound (g : DependencyGraph) (s : Search) : Prop where
  placed : s.Placed g
  settled : s.Settled g
  reaches_above : ∀ p ∈ s.path, ∀ u ∈ s.stack,
    s.index p ≤ s.index u → g.Reaches p u
  reaches_below : ∀ u ∈ s.stack, ∃ p ∈ s.path,
    s.index p ≤ s.index u ∧ g.Reaches u p
  low_le : ∀ u ∈ s.stack, s.low u ≤ s.index u
  low_reaches : ∀ u ∈ s.stack, ∃ v ∈ s.stack,
    s.index v = s.low u ∧ g.Reaches u v
  low_followed : ∀ u ∈ s.stack, ∀ v ∈ s.stack, s.Followed g u v →
    ∃ p ∈ s.path, s.InCharge p u ∧ s.low p ≤ s.index v

section Marks

variable (g : DependencyGraph) (s : Search) (u v : String)

theorem mark_lower (i : Nat) :
    (s.lower u i).mark v =
      if u = v then { s.mark v with lowlink := min (s.low v) i }
      else s.mark v := by
  unfold mark low lower
  rw [NameTable.get?_modify]
  by_cases h : u = v
  · subst h
    cases hget : s.marks.get? u <;> simp [mark, hget]
  · simp [h]

@[simp] theorem index_lower (i : Nat) :
    (s.lower u i).index v = s.index v := by
  unfold index
  rw [mark_lower]
  split <;> rfl

theorem low_lower (i : Nat) :
    (s.lower u i).low v = if u = v then min (s.low v) i else s.low v := by
  unfold low
  rw [mark_lower]
  split <;> rfl

@[simp] theorem isOpen_lower (i : Nat) :
    ((s.lower u i).mark v).isOpen = (s.mark v).isOpen := by
  rw [mark_lower]
  split <;> rfl

@[simp] theorem entered_lower (i : Nat) :
    (s.lower u i).Entered v ↔ s.Entered v :=
  NameTable.mem_names_modify

@[simp] theorem size_lower (i : Nat) :
    (s.lower u i).marks.size = s.marks.size :=
  NameTable.size_modify ..

@[simp] theorem stack_lower (i : Nat) : (s.lower u i).stack = s.stack := rfl

@[simp] theorem frames_lower (i : Nat) : (s.lower u i).frames = s.frames := rfl

@[simp] theorem path_lower (i : Nat) : (s.lower u i).path = s.path := rfl

@[simp] theorem closed_lower (i : Nat) : (s.lower u i).closed = s.closed := rfl

theorem mark_enter :
    (s.enter g u).mark v =
      if u = v then ⟨s.marks.size, s.marks.size, true⟩ else s.mark v := by
  unfold mark enter
  rw [NameTable.get?_insert]
  split <;> rfl

theorem index_enter :
    (s.enter g u).index v = if u = v then s.marks.size else s.index v := by
  unfold index
  rw [mark_enter]
  split <;> rfl

theorem low_enter :
    (s.enter g u).low v = if u = v then s.marks.size else s.low v := by
  unfold low
  rw [mark_enter]
  split <;> rfl

theorem entered_enter :
    (s.enter g u).Entered v ↔ v = u ∨ s.Entered v :=
  NameTable.mem_names_insert

theorem size_enter (hfresh : ¬ s.Entered u) :
    (s.enter g u).marks.size = s.marks.size + 1 := by
  show (s.marks.insert u _).size = _
  rw [NameTable.size_insert]
  exact if_neg hfresh

private theorem get?_foldl_shut (members : List String) (marks : NameTable Mark) :
    (members.foldl shut marks).get? v =
      (marks.get? v).map fun mark =>
        { mark with isOpen := mark.isOpen && !members.contains v } := by
  induction members generalizing marks with
  | nil => simp
  | cons head rest ih =>
      rw [List.foldl_cons, ih, shut, NameTable.get?_modify]
      by_cases h : head = v
      · subst h
        cases marks.get? head <;> simp
      · have h' : ¬ v = head := fun e => h e.symm
        cases marks.get? v <;> simp [h, h']

theorem mark_close {members left : List String}
    (hpop : popThrough u s.stack = (members, left)) :
    (s.close u).mark v =
      { s.mark v with isOpen := (s.mark v).isOpen && !members.contains v } := by
  unfold mark close
  simp only [hpop, get?_foldl_shut]
  cases s.marks.get? v <;> simp

@[simp] theorem index_close : (s.close u).index v = s.index v := by
  unfold index
  rw [mark_close s u v rfl]

@[simp] theorem low_close : (s.close u).low v = s.low v := by
  unfold low
  rw [mark_close s u v rfl]

@[simp] theorem entered_close : (s.close u).Entered v ↔ s.Entered v := by
  unfold Entered
  rw [NameTable.mem_names_iff_get?, NameTable.mem_names_iff_get?]
  unfold close
  simp [get?_foldl_shut]

private theorem size_foldl_shut (members : List String) (marks : NameTable Mark) :
    (members.foldl shut marks).size = marks.size := by
  induction members generalizing marks with
  | nil => rfl
  | cons head rest ih => rw [List.foldl_cons, ih, shut, NameTable.size_modify]

@[simp] theorem size_close : (s.close u).marks.size = s.marks.size :=
  size_foldl_shut _ _

@[simp] theorem frames_close : (s.close u).frames = s.frames := rfl

@[simp] theorem path_close : (s.close u).path = s.path := rfl

end Marks

/-- Popping takes what lies above a node, and the node itself. -/
theorem popThrough_append
    {node : String} {above below : List String} (hnot : node ∉ above) :
    popThrough node (above ++ node :: below) = (above ++ [node], below) := by
  induction above with
  | nil => simp [popThrough]
  | cons top rest ih =>
      have htop : top ≠ node := fun h => hnot (by simp [h])
      have hrest : node ∉ rest := fun h => hnot (List.mem_cons_of_mem _ h)
      simp [popThrough, htop, ih hrest]

theorem sound_start (g : DependencyGraph) : start.Sound g where
  placed := by
    constructor <;> simp [start, path, Entered, mark]
  settled := by
    constructor <;> simp [start, Closed, Entered]
  reaches_above := by simp [start, path]
  reaches_below := by simp [start]
  low_le := by simp [start]
  low_reaches := by simp [start]
  low_followed := by simp [start]

end Search
end CloudTemplate
