import FiniteAutomata.Fault
import FiniteAutomata.Label
import FiniteAutomata.Symbols
/-!
# Deterministic automata

A state has at most one target for a symbol; without a target the word is rejected. Each state
records the states of another automaton that it stands for.
-/

namespace FiniteAutomata

/-- A state of a deterministic automaton. -/
structure DfaState where
  /-- The states that it stands for. -/
  subset : StateSet
  /-- Targets by symbol. -/
  edges : SymbolMap StateId
  /-- Whether a word that ends here is accepted. -/
  isAccept : Bool
  deriving DecidableEq

instance : Inhabited DfaState := ⟨⟨Ordered.empty, Ordered.empty, false⟩⟩

/-- A deterministic automaton. -/
structure Dfa where
  states : Array DfaState
  start : StateId
  alphabet : Alphabet
  deriving DecidableEq

namespace Dfa

/-- Number of states. -/
def size (dfa : Dfa) : Nat := dfa.states.size

/-- The state of number `id`. -/
def state (dfa : Dfa) (id : StateId) : Checked DfaState :=
  match dfa.states[id]? with
  | some s => .ok s
  | none => .error (.unknownState id)

/-- The target of a state for `c`, if it has one. -/
def target (dfa : Dfa) (source : StateId) (c : Char) : Checked (Option StateId) := do
  return (← dfa.state source).edges.get? c

/-- Whether a word that ends in the state is accepted; a number without a state accepts nothing. -/
def isAccept (dfa : Dfa) (id : StateId) : Bool := (dfa.states[id]?.map (·.isAccept)).getD false

/-- The states in which a word is accepted. -/
def accept (dfa : Dfa) : StateSet := .ofList ((List.range dfa.size).filter dfa.isAccept)

/-- The first state that stands for `subset`. -/
def find? (dfa : Dfa) (subset : StateSet) : Option StateId := dfa.states.findIdx? (·.subset = subset)

/-- All edges, in order. -/
def transitions (dfa : Dfa) : List Transition :=
  dfa.states.toList.zipIdx.flatMap fun (s, id) => s.edges.toList.map fun (c, t) => ⟨id, .symbol c, t⟩

/-- A new edge; a state keeps the target that it has for a symbol. -/
def addEdge (dfa : Dfa) (source : StateId) (c : Char) (target : StateId) : Checked Dfa :=
  if h : source < dfa.states.size then
    let s := dfa.states[source]
    if ((s.edges.get? c).getD target) = target then
      .ok { dfa with states := dfa.states.set source { s with edges := s.edges.put c target } }
    else .error (.secondTarget source c)
  else .error (.unknownState source)

/-- There is an edge from `p` to `q` that reads `c`. -/
def Edge (dfa : Dfa) (p : StateId) (c : Char) (q : StateId) : Prop :=
  ∃ s, dfa.states[p]? = some s ∧ s.edges.get? c = some q

/-- The start and the ends of all edges are states, and the alphabet has all their symbols. -/
structure WellFormed (dfa : Dfa) : Prop where
  start_lt : dfa.start < dfa.size
  edge_lt : ∀ {p c q}, dfa.Edge p c q → q < dfa.size
  edge_mem : ∀ {p c q}, dfa.Edge p c q → c ∈ dfa.alphabet

/-! ## Reading a word -/

/-- Where a word leads from a state; nothing if a target is missing on the way. -/
def run (dfa : Dfa) (id : StateId) : List Char → Checked (Option StateId)
  | [] => .ok (some id)
  | c :: rest => do
    match ← dfa.target id c with
    | some next => dfa.run next rest
    | none => return none

/-- Whether a word is accepted. -/
def accepts (dfa : Dfa) (word : List Char) : Checked Bool := do
  match ← dfa.run dfa.start word with
  | some id => return dfa.isAccept id
  | none => return false

end Dfa

end FiniteAutomata
