import FiniteAutomata.Automaton
import FiniteAutomata.Palette
/-!
# Listings of automata

A listing has a line for each state, in order: its name, what it stands for if that is asked for,
whether it is the start and whether it accepts, and its edges in order, or `∅` if it has none. States
and edges are walked through side by side, so each edge is looked at once.
-/

namespace FiniteAutomata

/-- How a listing looks. -/
structure DumpStyle where
  palette : Palette := Palette.off
  /-- Whether states are listed with what they stand for. -/
  showsSubsets : Bool := false

namespace DumpStyle

/-- The name of a state. -/
def stateName (style : DumpStyle) (id : StateId) : String :=
  style.palette.blue ++ "S" ++ id.repr ++ style.palette.reset

/-- A text that stands back. -/
def dimmed (style : DumpStyle) (text : String) : String :=
  style.palette.dim ++ text ++ style.palette.reset

/-- A set after a state's name. -/
def subset (style : DumpStyle) : Option StateSet → String
  | some subset => " " ++ style.dimmed subset.text
  | none => ""

/-- What a state is apart from its edges. -/
def markers (style : DumpStyle) (isStart isAccept : Bool) : String :=
  let mark (text : String) := " " ++ style.palette.green ++ text ++ style.palette.reset
  match isStart, isAccept with
  | true, true => mark "(start, accept)"
  | true, false => mark "(start)"
  | false, true => mark "(accept)"
  | false, false => ""

/-- An edge on the line of its source. -/
def edge (style : DumpStyle) (t : Transition) : String :=
  (if t.label.isEpsilon then style.dimmed t.label.text else t.label.text) ++
    " " ++ style.dimmed "→" ++ " " ++ style.stateName t.target

/-- The edges of a state. -/
def edges (style : DumpStyle) (edges : List Transition) : String :=
  if edges.isEmpty then style.dimmed "∅" else ", ".intercalate (edges.map style.edge)

/-- The line of a state, with the edges that are listed for it. -/
def line (style : DumpStyle) (a : Automaton) (id : StateId) (edges : List Transition) :
    Checked String := do
  let subset? ← if style.showsSubsets then a.subset? id else pure none
  return style.stateName id ++ style.subset subset? ++
    style.markers (id = a.start) (a.isAccept id) ++ ": " ++ style.edges edges ++ "\n"

/-- The lines of states, where `edges` are still to be listed. A state takes edges from their front, as
long as they leave it; what an edge out of order holds up is not listed. -/
def lines (style : DumpStyle) (a : Automaton) :
    List StateId → List Transition → Checked (List String)
  | [], _ => .ok []
  | id :: rest, edges => do
    let line ← style.line a id (edges.takeWhile (·.source = id))
    return line :: (← style.lines a rest (edges.dropWhile (·.source = id)))

end DumpStyle

/-- The listing of an automaton. -/
def Automaton.dump (a : Automaton) (style : DumpStyle) : Checked String := do
  return String.join (← style.lines a a.states a.transitions)

/-- The listing without colours and subsets. -/
def Automaton.plainDump (a : Automaton) : Checked String := a.dump {}

end FiniteAutomata
