import CloudTemplate.Error
import CloudTemplate.Graph.Basic

/-!
# Strongly connected components

The components of a graph: two nodes share one when each depends on the other, directly or through
others. They are found in one depth-first search, and come out dependencies first.

The search numbers the nodes as it enters them and keeps for each node the least number that it can
get back to. A node that gets back no further than to itself closes a component, which is what lies
above the node on the stack.

Main definitions: `Search.step` is one step of the search, `DependencyGraph.components` is what it
finds, and `DependencyGraph.cycles` are the components with more than one member.
-/

namespace CloudTemplate

/-- The members of a strongly connected component. -/
abbrev Component := NameSet

/-- Look for a name in ascending names by halving them. -/
def bisect (id : String) (names : List String) : Bool :=
  match hsplit : names.drop (names.length / 2) with
  | [] => false
  | middle :: above =>
    if id = middle then true
    else if id < middle then bisect id (names.take (names.length / 2))
    else bisect id above
termination_by names.length
decreasing_by
  all_goals
    have length := congrArg List.length hsplit
    simp only [List.length_drop, List.length_cons, List.length_take] at length ⊢
    omega

/-- Whether a node is a member. -/
def Component.contains (c : Component) (id : String) : Bool :=
  bisect id c.names

/-- What the search knows about a node that it has entered. -/
structure Mark where
  /-- The number of nodes entered before. -/
  index : Nat
  /-- The least index that the search has found a way back to. -/
  lowlink : Nat
  /-- Whether the component of the node is still open. -/
  isOpen : Bool
deriving DecidableEq, Repr

/-- The state of the search. -/
structure Search where
  marks : NameTable Mark
  /-- The nodes of open components, the latest first. -/
  stack : List String
  /-- The path of the search, the latest node first, with the successors still to be visited. -/
  frames : List (String × List String)
  /-- The closed components, the latest first. -/
  closed : List Component

namespace Search

/-- The search before its first step. -/
def start : Search := ⟨.empty, [], [], []⟩

/-- Enter a node. -/
def enter (g : DependencyGraph) (s : Search) (node : String) : Search where
  marks := s.marks.insert node ⟨s.marks.size, s.marks.size, true⟩
  stack := node :: s.stack
  frames := (node, g.dependencies node) :: s.frames
  closed := s.closed

/-- Note that there is a way from a node back to an index. -/
def lower (s : Search) (node : String) (index : Nat) : Search :=
  { s with
    marks := s.marks.modify node fun mark => { mark with lowlink := min mark.lowlink index } }

/-- Split a stack below a node. -/
def popThrough (node : String) : List String → List String × List String
  | [] => ([], [])
  | top :: rest =>
    if top = node then ([top], rest)
    else
      let (popped, left) := popThrough node rest
      (top :: popped, left)

/-- Note that the component of a node is closed. -/
def shut (marks : NameTable Mark) (node : String) : NameTable Mark :=
  marks.modify node fun mark => { mark with isOpen := false }

/-- Close the component that a node was entered first of. -/
def close (s : Search) (node : String) : Search :=
  let (members, left) := popThrough node s.stack
  { s with
    marks := members.foldl shut s.marks
    stack := left
    closed := NameSet.ofList members :: s.closed }

/-- Go back from a node all of whose successors were visited. What the node can get back to, its
predecessor on the path can. -/
def leave (s : Search) (node : String) : Search :=
  match s.marks.get? node with
  | none => s
  | some mark =>
    let s :=
      match s.frames with
      | (predecessor, _) :: _ => s.lower predecessor mark.lowlink
      | [] => s
    if mark.lowlink = mark.index then s.close node else s

/-- Visit one successor of the latest node of the path, or go back from that node. -/
def step (g : DependencyGraph) (s : Search) : Search :=
  match s.frames with
  | [] => s
  | (node, []) :: frames => { s with frames }.leave node
  | (node, successor :: rest) :: frames =>
    let s := { s with frames := (node, rest) :: frames }
    match s.marks.get? successor with
    | none => s.enter g successor
    | some mark => if mark.isOpen then s.lower node mark.index else s

/-- Search on until the path is empty, in at most the given number of steps. -/
def run (g : DependencyGraph) : Nat → Search → Search
  | 0, s => s
  | steps + 1, s => if s.frames.isEmpty then s else run g steps (s.step g)

/-- The number of steps of the whole search: each node is left once and each edge is followed
once. -/
def stepCount (g : DependencyGraph) : Nat :=
  g.nodeCount + g.edgeCount

/-- Search everything that a node leads to, unless it was entered before, in at most the given
number of steps. -/
def visit (g : DependencyGraph) (steps : Nat) (s : Search) (root : String) : Search :=
  if s.marks.contains root then s else (s.enter g root).run g steps

end Search

namespace DependencyGraph

/-- The strongly connected components, each after all that it depends on. -/
def components (g : DependencyGraph) : List Component :=
  (g.ids.foldl (Search.visit g (Search.stepCount g)) .start).closed.reverse

/-- The components with more than one member, in the order of their first members. -/
def cycles (g : DependencyGraph) : List Component :=
  (g.components.filter fun c => c.size ≠ 1).mergeSort fun a b =>
    a.names.headD "" ≤ b.names.headD ""

/-- Refuse a graph with cycles. -/
def ensureAcyclic (g : DependencyGraph) : Except Error Unit :=
  match g.cycles with
  | [] => .ok ()
  | cycles => .error (.circularDependency (cycles.map NameTable.names))

end DependencyGraph

end CloudTemplate
