import CloudTemplate.Graph.Basic

/-!
# Outlines

The dependencies of a node as an indented outline, one line for each edge that can be reached from
it. Only the first line of a node has the node's own dependencies below it; later lines of the same
node are marked.

Main definitions: `DependencyGraph.outline` lists the lines, and `OutlineLine.text` writes one.
-/

namespace CloudTemplate

/-- Why the dependencies of a node stand below its line or not. -/
inductive OutlineMark where
  /-- They do. -/
  | expanded
  /-- The node is an ancestor of its own line. -/
  | circular
  /-- They stand below another line. -/
  | alreadyShown
deriving DecidableEq, Repr

/-- A place of an outline and the node that stands there. -/
structure OutlinePlace where
  /-- The nodes above, nearest first. -/
  ancestors : List String
  /-- For each level below the root, whether the place is in the last branch. -/
  branch : List Bool
  id : String
deriving DecidableEq, Repr

/-- A line of an outline. -/
structure OutlineLine where
  place : OutlinePlace
  mark : OutlineMark
deriving DecidableEq, Repr

namespace OutlinePlace

/-- The place of the root. -/
def root (id : String) : OutlinePlace := ⟨[], [], id⟩

/-- The places of the given nodes below a place. -/
def below (place : OutlinePlace) : List String → List OutlinePlace
  | [] => []
  | id :: rest =>
    ⟨place.id :: place.ancestors, place.branch ++ [rest.isEmpty], id⟩ :: below place rest

/-- The number of levels above a place. -/
def depth (place : OutlinePlace) : Nat :=
  place.ancestors.length

/-- The lines that lead to a place. -/
def indent : List Bool → String
  | [] => ""
  | [true] => "└── "
  | [false] => "├── "
  | true :: rest => "    " ++ indent rest
  | false :: rest => "│   " ++ indent rest

end OutlinePlace

/-- The words for a mark. -/
def OutlineMark.text : OutlineMark → String
  | .expanded => ""
  | .circular => " (circular reference)"
  | .alreadyShown => " (already shown)"

/-- A line in writing. -/
def OutlineLine.text (line : OutlineLine) : String :=
  OutlinePlace.indent line.place.branch ++ line.place.id ++ line.mark.text

namespace DependencyGraph

/-- The mark of a place, given the nodes that were expanded before. -/
def markOf (shown : NameSet) (place : OutlinePlace) : OutlineMark :=
  if place.ancestors.contains place.id then .circular
  else if shown.contains place.id then .alreadyShown
  else .expanded

/-- Write the lines of the pending places, from the first to the last. The places below an expanded
one come before the others. A step writes one line. -/
def outlineFrom (g : DependencyGraph) : Nat → NameSet → List OutlinePlace → List OutlineLine
  | 0, _, _ => []
  | _, _, [] => []
  | steps + 1, shown, place :: pending =>
    let mark := markOf shown place
    ⟨place, mark⟩ ::
      match mark with
      | .expanded =>
        outlineFrom g steps (NameSet.add shown place.id)
          (place.below (g.dependencies place.id) ++ pending)
      | _ => outlineFrom g steps shown pending

/-- The outline of what a node depends on. A name without a node has only its own line. There is
one line for the root and at most one for each edge. -/
def outline (g : DependencyGraph) (root : String) : List OutlineLine :=
  g.outlineFrom (g.edgeCount + 1) .empty [.root root]

/-- The outline of what a node depends on, in writing. -/
def outlineText (g : DependencyGraph) (root : String) : String :=
  String.join ((g.outline root).map fun line => line.text ++ "\n")

end DependencyGraph

end CloudTemplate
