import FiniteAutomata.Automaton
/-!
# Automata as DOT graphs

The text of a graph in the DOT language: a point that leads to the start, accepting states with a
double circle, and an arrow for each edge. The name of the graph is a bare word if it can be one, and
a quoted text otherwise.
-/

namespace FiniteAutomata.Dot

/-- A letter, a digit or an underscore. -/
def isWordChar (c : Char) : Bool := c.isAlphanum || c = '_'

/-- Whether a name can stand without quotes: word characters, the first no digit. -/
def isBare (name : String) : Bool :=
  match name.toList with
  | [] => false
  | c :: rest => !c.isDigit && (c :: rest).all isWordChar

/-- A character between quotes. -/
def quotedChar (c : Char) : String :=
  match c with
  | '\\' => "\\\\"
  | '\x22' => "\\\""
  | _ => c.toString

/-- The name of a graph. -/
def graphName (name : String) : String :=
  if isBare name then name else "\"" ++ String.join (name.toList.map quotedChar) ++ "\""

/-- The line of an accepting state. -/
def acceptLine (id : StateId) : String := "    S" ++ id.repr ++ " [shape=doublecircle];\n"

/-- The line of an edge. -/
def edgeLine (t : Transition) : String :=
  "    S" ++ t.source.repr ++ " -> S" ++ t.target.repr ++ " [label=\"" ++ t.label.text ++ "\"];\n"

end Dot

/-- The graph of an automaton. -/
def Automaton.dot (a : Automaton) (name : String) : String :=
  "digraph " ++ Dot.graphName name ++ " \x7b\n" ++
  "    rankdir=LR;\n    node [shape=circle];\n    start [shape=point];\n" ++
  String.join (a.acceptStates.map Dot.acceptLine) ++
  "    start -> S" ++ a.start.repr ++ ";\n" ++
  String.join (a.transitions.map Dot.edgeLine) ++ "\x7d\n"

end FiniteAutomata
