import TruthTables.Forest
import TruthTables.Text.Quoted

set_option autoImplicit false

/-! # Forests in the dot language

The graph of a forest as a program of the dot language: nodes, boxes and edges, one statement a line. -/

namespace TruthTables

/-- The label of the topmost node of a tree. -/
def Expr.label : Expr → String
  | .var s => s.name.toString
  | .not _ => Operator.not.char.toString
  | .binary c _ _ => c.char.toString

namespace Forest

/-- The name of a node. -/
def nodeName (number : Nat) : String :=
  "n_" ++ toString number

/-- A setting of a node or an edge. -/
def setting (name value : String) : String :=
  "[" ++ name ++ "=\"" ++ Text.escapedAscii value ++ "\"]"

/-- A line of the program. -/
def statement (s : String) : String :=
  "    " ++ s ++ ";\n"

/-- The forest as a dot program. -/
def dot (f : Forest) : String :=
  let nodes := f.nodes.zipIdx.map fun (e, i) => statement (nodeName i ++ setting "label" e.label)
  let boxes := f.roots.zipIdx.map fun (root, i) =>
    statement (nodeName (f.box i) ++ setting "label" root.1 ++ setting "shape" "box")
  let edges := f.edges.map fun edge =>
    statement (nodeName edge.source ++ " -> " ++ nodeName edge.target
      ++ setting "label" edge.label)
  "digraph parse_forest \x7b\n" ++ String.join nodes ++ String.join boxes ++ String.join edges
    ++ "\x7d\n"

end Forest

end TruthTables
