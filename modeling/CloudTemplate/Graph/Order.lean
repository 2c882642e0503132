import CloudTemplate.Graph.Blueprint
import CloudTemplate.Graph.Component

/-!
# Orders of release

Nodes are released one after the other, each when all that it depends on has been released; of the
nodes that are ready the least goes first. A table counts for each node what it still waits for.

Main definitions: `Release.step` releases one node, `Adjacency.releaseOrder` releases all that can
be, and `DependencyGraph.creationOrder` is the order for a graph without cycles.
-/

namespace CloudTemplate

/-- What waits to be released. -/
structure Release where
  /-- For each node, how many of its dependencies were not released yet. -/
  remaining : NameTable Nat
  /-- The nodes that wait for nothing and were not released yet. -/
  ready : NameSet

namespace Adjacency

/-- The nodes that depend directly on a node, ascending. -/
def dependents (adjacency : Adjacency) (id : String) : List String :=
  Entries.names (adjacency.entries.filter fun row => row.2.contains id)

end Adjacency

namespace Release

/-- Nothing is released yet. -/
def start (adjacency : Adjacency) : Release :=
  let remaining := NameTable.map NameTable.size adjacency
  ⟨remaining, (remaining.filter fun entry => entry.2 = 0).map fun _ => ()⟩

/-- One dependency of a node was released. -/
def countDown (r : Release) (id : String) : Release :=
  match r.remaining.get? id with
  | none => r
  | some count =>
    ⟨r.remaining.insert id (count - 1), if count - 1 = 0 then NameSet.add r.ready id else r.ready⟩

/-- Release a node. -/
def release (adjacency : Adjacency) (r : Release) (id : String) : Release :=
  (Adjacency.dependents adjacency id).foldl countDown { r with ready := r.ready.erase id }

/-- Release the least node that is ready, if there is one. -/
def step (adjacency : Adjacency) (r : Release) : Option (String × Release) :=
  match r.ready.names with
  | [] => none
  | id :: _ => some (id, r.release adjacency id)

/-- Release nodes while one is ready, but no more than the given number. -/
def run (adjacency : Adjacency) : Nat → Release → List String
  | 0, _ => []
  | nodes + 1, r =>
    match r.step adjacency with
    | none => []
    | some (id, next) => id :: run adjacency nodes next

end Release

/-- The nodes of an adjacency map in the order in which they are released. -/
def Adjacency.releaseOrder (adjacency : Adjacency) : List String :=
  (Release.start adjacency).run adjacency adjacency.size

namespace DependencyGraph

/-- The nodes in an order in which they can be created: each after all that it depends on. -/
def creationOrder (g : DependencyGraph) : Except Error (List String) := do
  g.ensureAcyclic
  return Adjacency.releaseOrder g.toMap

/-- The nodes in an order in which they can be deleted: each before all that it depends on. -/
def deletionOrder (g : DependencyGraph) : Except Error (List String) :=
  g.creationOrder.map List.reverse

end DependencyGraph

namespace ResourceSet

/-- The ids of resources that refer to each other only, in an order in which they can be
created. -/
def creationOrder (resources : ResourceSet) : Except Error (List String) := do
  (← (Blueprint.ofResources resources).graph).creationOrder

/-- The ids of resources that refer to each other only, in an order in which they can be
deleted. -/
def deletionOrder (resources : ResourceSet) : Except Error (List String) :=
  (creationOrder resources).map List.reverse

end ResourceSet

end CloudTemplate
