import TruthTables.Expr

set_option autoImplicit false

/-! # Forests

The trees of several formulas as one graph, in which coinciding subtrees are one node. Nodes are numbered
in post-order over all trees, so every edge between them leads to a smaller number. Each formula has a
box of its own behind the nodes, with an edge to the node of its tree. -/

namespace TruthTables

/-- Labelled trees and their distinct subtrees. -/
structure Forest where
  roots : List (String × Expr)
  nodes : List Expr

namespace Forest

/-- The trees of a list that coincide with none before them, nor with one of `seen`. -/
def distinct (seen : List Expr) : List Expr → List Expr
  | [] => []
  | e :: rest =>
    if seen.any e.coincides then distinct seen rest else e :: distinct (e :: seen) rest

/-- The forest of labelled trees. -/
def ofTrees (trees : List (String × Expr)) : Forest where
  roots := trees
  nodes := distinct [] (trees.flatMap fun tree => tree.2.subtrees)

/-- The number of the node that a tree coincides with; the number of nodes if there is none. -/
def position (f : Forest) (e : Expr) : Nat :=
  f.nodes.findIdx e.coincides

/-- The number of a formula's box. -/
def box (f : Forest) (root : Nat) : Nat :=
  f.nodes.length + root

/-! ## Edges -/

/-- An edge of the graph. -/
structure Edge where
  source : Nat
  label : String
  target : Nat
  deriving DecidableEq, Repr

/-- The edges from a node to its children. -/
def childEdges (f : Forest) (source : Nat) : Expr → List Edge
  | .var _ => []
  | .not e => [{ source, label := "", target := f.position e }]
  | .binary _ l r =>
    [{ source, label := "L", target := f.position l }, { source, label := "R", target := f.position r }]

/-- All edges: those of the nodes in order, then those of the boxes. -/
def edges (f : Forest) : List Edge :=
  (f.nodes.zipIdx.flatMap fun (e, source) => f.childEdges source e)
    ++ f.roots.zipIdx.map fun (root, i) =>
      { source := f.box i, label := "", target := f.position root.2 }

end Forest

end TruthTables
