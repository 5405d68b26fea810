import PatternAutomata.Automaton.Basic

/-!
# Drawing an automaton

The text of an automaton in the language of Graphviz.  There is a line for each
state, then a line for each edge; the edges of a state are ordered by label and
target, silent ones first.  Labels are written as they are, without escapes.
-/

namespace PatternAutomata

/-- The rank of a label among labels: silence first, then by code point. -/
def Edge.labelRank : Option Char → Nat
  | none => 0
  | some c => c.toNat + 1

/-- The order in which the edges of a state are drawn. -/
def Edge.precedes (a b : Edge) : Bool :=
  decide (labelRank a.label < labelRank b.label) ||
    (labelRank a.label == labelRank b.label && decide (a.target ≤ b.target))

namespace Graphviz

/-- The name under which a state is drawn. -/
def node (s : Nat) : String :=
  "node_" ++ toString s

/-- The line of a state.  The accepting state has a double circle, the start is
green unless it is the accepting state, and all others are grey. -/
def nodeLine (A : Automaton) (s : Nat) : String :=
  let named := node s ++ "[label=\"" ++ toString s ++ "\""
  if s = A.accept then named ++ " shape=doublecircle]"
  else if s = A.start then named ++ "][fillcolor=green]"
  else named ++ "][fillcolor=\"#EEEEEE\" fontcolor=\"#888888\"]"

/-- The line of an edge, which is dashed if the edge is silent. -/
def edgeLine (s : Nat) (e : Edge) : String :=
  let arrow := node s ++ " -> " ++ node e.target
  match e.label with
  | some c => arrow ++ "[label=\"" ++ String.singleton c ++ "\"]"
  | none => arrow ++ "[style=dashed]"

/-- The lines of all states. -/
def nodeLines (A : Automaton) : List String :=
  (List.range A.size).map (nodeLine A)

/-- The lines of all edges, state by state. -/
def edgeLines (A : Automaton) : List String :=
  (List.range A.size).flatMap fun s => ((A.edgesFrom s).mergeSort Edge.precedes).map (edgeLine s)

/-- What stands before the line of the first state. -/
def heading : String :=
  "digraph G \x7b  rankdir=\"LR\" graph [fontname = \"Courier New\"];\n" ++
  "                node [fontname = \"verdana\", style = rounded];\n" ++
  "                edge [fontname = \"verdana\"];\n" ++
  "                \x7b\n" ++
  "node [shape=circle style=filled fillcolor=\"#4385f5\" fontcolor=\"#FFFFFF\" " ++
  "color=white penwidth=5.0 margin=0.1 width=0.5 height=0.5 fixedsize=true]\n"

end Graphviz

/-- The drawing of an automaton. -/
def Automaton.dot (A : Automaton) : String :=
  Graphviz.heading ++ "\n".intercalate (Graphviz.nodeLines A) ++ "\n" ++
    "\n".intercalate (Graphviz.edgeLines A) ++ "\n\x7d\x7d"

end PatternAutomata
