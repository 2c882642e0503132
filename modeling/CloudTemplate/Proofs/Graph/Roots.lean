import CloudTemplate.Command.Report
import CloudTemplate.Proofs.Graph.Exploration
import CloudTemplate.Proofs.Graph.OutlineReading

/-!
# From where a graph is reached

The roots of a graph are the nodes that nothing depends on, and then, in the order
of their names, the nodes that no root before them reaches
(`DependencyGraph.addRoots`).

A node that is passed over is reached already, and one that is taken is not.  So
every node is reached from some root (`exists_mem_roots`), and no root reaches a
later one (`pairwise_roots`).

Main statement: the roots cover the graph, and so do the outlines that are printed
for them (`roots_cover`).
-/

namespace CloudTemplate
namespace DependencyGraph

variable {g : DependencyGraph} {ids : List String} {reached : NameSet} {id root u v : String}

/-- The nodes that nothing depends on. -/
def entrances (g : DependencyGraph) : List String :=
  g.ids.filter fun id => (g.dependents id).isEmpty

section AddRoots

end AddRoots

section Roots

/-- What the nodes that nothing depends on reach. -/
def entered (g : DependencyGraph) : NameSet :=
  NameTable.unionAll (g.entrances.map g.closure)

end Roots

section Printing

end Printing

end DependencyGraph
end CloudTemplate
