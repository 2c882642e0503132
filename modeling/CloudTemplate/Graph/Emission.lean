import CloudTemplate.Graph.Order

/-!
# Orders of emission

An order for graphs with cycles. The nodes come out in groups, one for each strongly connected
component. A group comes after all groups that it depends on; within a group, a node may come
before one that it depends on, and then has a forward reference to it.

Main definitions: `EmissionGroup.ofMembers` orders one group, `DependencyGraph.condensation` is the
graph of the groups, and `DependencyGraph.emissionOrder` is the order of the groups.
-/

namespace CloudTemplate

/-- The nodes of a component in the order of their emission. -/
structure EmissionGroup where
  members : List String
  /-- For each member that has such, the members that it depends on and that come after it. -/
  forward : NameTable NameSet
deriving DecidableEq

namespace EmissionGroup

/-- Whether the members depend on each other. -/
def isCycle (group : EmissionGroup) : Bool :=
  group.members.length > 1

/-- The number of forward references. -/
def forwardCount (group : EmissionGroup) : Nat :=
  group.forward.values.foldl (fun count row => count + row.size) 0

/-- What a member depends on within its group. -/
def inner (g : DependencyGraph) (members : List String) (id : String) : List String :=
  (g.dependencies id).filter members.contains

/-- Members that depend on fewer others of the group come first; of those with the same number,
the lesser. -/
def arrange (g : DependencyGraph) (members : List String) : List String :=
  let counted := members.map fun id => ((inner g members id).length, id)
  let ordered := counted.mergeSort fun a b => ((compare a.1 b.1).then (compare a.2 b.2)).isLE
  ordered.map Prod.snd

/-- The forward references of members in their order. -/
def forwardOf (g : DependencyGraph) : List String → List (String × NameSet)
  | [] => []
  | id :: later =>
    match inner g later id with
    | [] => forwardOf g later
    | targets => (id, NameSet.ofList targets) :: forwardOf g later

/-- The group of the members of a component. -/
def ofMembers (g : DependencyGraph) (members : List String) : EmissionGroup :=
  let ordered := arrange g members
  ⟨ordered, .ofList (forwardOf g ordered)⟩

end EmissionGroup

/-- The first member of a component stands for all of it. -/
def Component.leader (c : Component) : String :=
  c.names.headD ""

namespace DependencyGraph

/-- For each node, the first member of its component. -/
def leaders (components : List Component) : NameTable String :=
  .ofList <| components.flatMap fun c => c.names.map fun member => (member, Component.leader c)

/-- The other components that a component depends on, each by its first member. -/
def outerDependencies (g : DependencyGraph) (leaders : NameTable String) (c : Component) :
    NameSet :=
  .ofList <| (c.names.flatMap g.dependencies).filterMap fun target =>
    (leaders.get? target).filter fun leader => leader != Component.leader c

/-- Which component depends on which, each by its first member. -/
def condensation (g : DependencyGraph) (components : List Component) : Adjacency :=
  let leaders := leaders components
  .ofList <| components.map fun c => (Component.leader c, g.outerDependencies leaders c)

/-- The components in the order of their emission. -/
def emissionOrder (g : DependencyGraph) : List EmissionGroup :=
  let components := g.components
  let members : NameTable (List String) :=
    .ofList <| components.map fun c => (Component.leader c, c.names)
  (Adjacency.releaseOrder (g.condensation components)).map fun leader =>
    EmissionGroup.ofMembers g ((members.get? leader).getD [leader])

end DependencyGraph

end CloudTemplate
