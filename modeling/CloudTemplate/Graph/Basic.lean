import CloudTemplate.Recovery.Patterns

/-!
# Dependency graphs

A graph has a row for each resource with the resources it depends on and the reason for each. No
row names a resource without a row of its own, and no resource depends on itself.

Main statements: the two invariants hold of every graph, as they are part of its type;
`DependencyGraph.ofRows` makes a graph of any rows by leaving out what would break them.
-/

namespace CloudTemplate

/-- Why a resource depends on another. -/
inductive EdgeKind where
  /-- A reference in a property. -/
  | reference
  /-- An entry of `DependsOn`. -/
  | dependsOn
  /-- A text by which the other resource is known. -/
  | recovered
deriving DecidableEq, Repr

/-- The word for a reason. -/
def EdgeKind.name : EdgeKind → String
  | .reference => "reference"
  | .dependsOn => "depends-on"
  | .recovered => "recovered"

/-- The targets of a resource with the reason for each. -/
abbrev EdgeRow := NameTable EdgeKind

/-- Which names depend on which. -/
abbrev Adjacency := NameTable NameSet

/-- The dependencies of a resource set. -/
structure DependencyGraph where
  rows : NameTable EdgeRow
  /-- Every target has a row, and none is its own source. -/
  sound : ∀ row ∈ rows.entries, ∀ edge ∈ row.2.entries, edge.1 ∈ rows.names ∧ edge.1 ≠ row.1
  /-- The parameters that resources refer to. -/
  parameters : NameTable NameSet
  /-- What recovery could not decide. -/
  warnings : List AmbiguousMatch

namespace DependencyGraph

/-- The edges of a row that a graph with the given nodes may hold. -/
def soundRow (nodes : List String) (source : String) (row : EdgeRow) : EdgeRow :=
  row.filter fun edge => nodes.contains edge.1 && edge.1 != source

/-- The rows of a table, less what a graph may not hold. -/
def soundRows (rows : NameTable EdgeRow) : NameTable EdgeRow :=
  rows.mapEntries (soundRow rows.names)

/-- The graph with the given rows, less the edges that lead to no node or back to their source. -/
def ofRows (rows : NameTable EdgeRow) (parameters : NameTable NameSet)
    (warnings : List AmbiguousMatch) : DependencyGraph where
  rows := soundRows rows
  sound := by
    intro row mem edge memEdge
    obtain ⟨given, -, rfl⟩ := List.mem_map.1 mem
    have kept := (List.mem_filter.1 memEdge).2
    simp only [Bool.and_eq_true, bne_iff_ne, ne_eq, List.contains_iff_mem] at kept
    refine ⟨?_, kept.2⟩
    rw [soundRows, NameTable.names, NameTable.mapEntries, Entries.names_mapEntries]
    exact kept.1
  parameters := parameters
  warnings := warnings

/-- Every node, ascending. -/
def ids (g : DependencyGraph) : List String :=
  g.rows.names

/-- Whether there is no node. -/
def isEmpty (g : DependencyGraph) : Bool :=
  g.rows.isEmpty

/-- The number of nodes. -/
def nodeCount (g : DependencyGraph) : Nat :=
  g.rows.size

/-- The number of edges. -/
def edgeCount (g : DependencyGraph) : Nat :=
  g.rows.values.foldl (fun count row => count + row.size) 0

/-- Whether a node has the name. -/
def contains (g : DependencyGraph) (id : String) : Bool :=
  g.rows.contains id

/-- What a node depends on, ascending. -/
def dependencies (g : DependencyGraph) (id : String) : List String :=
  match g.rows.get? id with
  | some row => row.names
  | none => []

/-- What depends on a node, ascending. -/
def dependents (g : DependencyGraph) (id : String) : List String :=
  Entries.names (g.rows.entries.filter fun row => row.2.contains id)

/-- Why a node depends on another, if it does. -/
def edgeKind? (g : DependencyGraph) (source target : String) : Option EdgeKind :=
  (g.rows.get? source).bind fun row => row.get? target

/-- The parameters that a resource refers to. -/
def parameterReferences (g : DependencyGraph) (id : String) : NameSet :=
  (g.parameters.get? id).getD .empty

/-- All edges with their reasons, ascending. -/
def edges (g : DependencyGraph) : List (String × String × EdgeKind) :=
  g.rows.entries.flatMap fun row => row.2.entries.map fun edge => (row.1, edge)

/-- The edges that recovery added, ascending. -/
def recoveredEdges (g : DependencyGraph) : List (String × String) :=
  (g.edges.filter fun edge => edge.2.2 = .recovered).map fun edge => (edge.1, edge.2.1)

/-- Which node depends on which. -/
def toMap (g : DependencyGraph) : Adjacency :=
  g.rows.map fun row => row.map fun _ => ()

end DependencyGraph

end CloudTemplate
