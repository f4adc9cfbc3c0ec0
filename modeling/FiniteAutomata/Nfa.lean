import FiniteAutomata.Fault
import FiniteAutomata.Label
import FiniteAutomata.Symbols
/-!
# Nondeterministic automata

States are numbered from 0. A state may have any number of targets for a symbol, and edges that read
nothing. `WellFormed` says that the start and all targets are states of the automaton.
-/

namespace FiniteAutomata

/-- The edges that leave a state. -/
structure NfaState where
  /-- Targets by symbol. -/
  symbols : SymbolMap StateSet
  /-- Targets of the edges that read nothing. -/
  epsilon : StateSet
  deriving DecidableEq

namespace NfaState

/-- A state without edges. -/
def empty : NfaState := ⟨Ordered.empty, Ordered.empty⟩

instance : Inhabited NfaState := ⟨empty⟩

/-- The targets for `c`, if there is an edge. -/
def targets? (s : NfaState) (c : Char) : Option StateSet := s.symbols.get? c

/-- `s` with an edge that reads `c`. -/
def addSymbol (s : NfaState) (c : Char) (target : StateId) : NfaState :=
  { s with symbols := s.symbols.put c (((s.targets? c).getD Ordered.empty).insert target) }

/-- `s` with an edge that reads nothing. -/
def addEpsilon (s : NfaState) (target : StateId) : NfaState :=
  { s with epsilon := s.epsilon.insert target }

/-- An edge with label `l` leads to `target`. -/
def Leads (s : NfaState) (l : Label) (target : StateId) : Prop :=
  match l with
  | .symbol c => ∃ targets, s.targets? c = some targets ∧ target ∈ targets
  | .epsilon => target ∈ s.epsilon

/-- The edges of a state of number `source`, in order. -/
def transitions (s : NfaState) (source : StateId) : List Transition :=
  (s.symbols.toList.flatMap fun (c, targets) => targets.toList.map (⟨source, .symbol c, ·⟩)) ++
    s.epsilon.toList.map (⟨source, .epsilon, ·⟩)

end NfaState

/-- A nondeterministic automaton. -/
structure Nfa where
  states : Array NfaState
  start : StateId
  /-- The states in which a word is accepted. -/
  accept : StateSet
  /-- Whether it was made from no tokens at all. -/
  isEmptyExpression : Bool := false
  deriving DecidableEq

namespace Nfa

/-- Number of states. -/
def size (nfa : Nfa) : Nat := nfa.states.size

/-- The state of number `id`. -/
def state (nfa : Nfa) (id : StateId) : Checked NfaState :=
  match nfa.states[id]? with
  | some s => .ok s
  | none => .error (.unknownState id)

/-- Whether a word that ends in the state is accepted. -/
def isAccept (nfa : Nfa) (id : StateId) : Bool := decide (id ∈ nfa.accept)

/-- The symbols on the edges. -/
def alphabet (nfa : Nfa) : Alphabet := .ofList (nfa.states.toList.flatMap (·.symbols.symbols.toList))

/-- All edges, in order. -/
def transitions (nfa : Nfa) : List Transition :=
  nfa.states.toList.zipIdx.flatMap fun (s, id) => s.transitions id

/-- There is an edge from `p` to `q` with label `l`. -/
def Edge (nfa : Nfa) (p : StateId) (l : Label) (q : StateId) : Prop :=
  ∃ s, nfa.states[p]? = some s ∧ s.Leads l q

/-- The start and the ends of all edges are states. -/
structure WellFormed (nfa : Nfa) : Prop where
  start_lt : nfa.start < nfa.size
  edge_lt : ∀ {p l q}, nfa.Edge p l q → q < nfa.size

end Nfa

end FiniteAutomata
