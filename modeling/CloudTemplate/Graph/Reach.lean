import CloudTemplate.Graph.Basic

/-!
# Reachable nodes

What a node depends on directly or through others, and from where a whole graph can be reached.

Main definitions: `DependencyGraph.transitiveDependencies` and `DependencyGraph.roots`.
-/

namespace CloudTemplate

namespace DependencyGraph

/-- Explore the pending nodes. What they depend on is found, and becomes pending when it was not
found before. A step takes one pending node. -/
def explore (g : DependencyGraph) : Nat → List String → NameSet → NameSet
  | 0, _, found => found
  | _, [], found => found
  | steps + 1, id :: pending, found =>
    let new := (g.dependencies id).filter fun target => !found.contains target
    explore g steps (pending ++ new) (new.foldl NameSet.add found)

/-- Everything that a node depends on, directly or through others. Each node is pending at most
once, apart from the first. -/
def transitiveDependencies (g : DependencyGraph) (id : String) : NameSet :=
  g.explore (g.nodeCount + 1) [id] .empty

/-- A node and everything that it depends on. -/
def closure (g : DependencyGraph) (id : String) : NameSet :=
  NameSet.add (g.transitiveDependencies id) id

/-- Go through the given nodes. One that is not reached yet becomes a root. -/
def addRoots (g : DependencyGraph) : List String → NameSet → List String
  | [], _ => []
  | id :: rest, reached =>
    if reached.contains id then addRoots g rest reached
    else id :: addRoots g rest (reached.union (g.closure id))

/-- Nodes from which the whole graph is reached: first those that nothing depends on, then, where
a part of the graph has only cycles to enter by, the least node of it that is not reached yet. -/
def roots (g : DependencyGraph) : List String :=
  let free := g.ids.filter fun id => (g.dependents id).isEmpty
  let reached := free.foldl (fun reached id => reached.union (g.closure id)) NameTable.empty
  free ++ g.addRoots g.ids reached

end DependencyGraph

end CloudTemplate
