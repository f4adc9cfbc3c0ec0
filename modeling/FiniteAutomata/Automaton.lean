import FiniteAutomata.Dfa
import FiniteAutomata.Nfa.Run
/-!
# Automata of either kind

What can be asked of an automaton whether or not it is deterministic: its states, its edges, and
whether it accepts a word. Printers need no more than this.
-/

namespace FiniteAutomata

/-- An automaton. -/
inductive Automaton where
  | nondeterministic (nfa : Nfa)
  | deterministic (dfa : Dfa)
  deriving DecidableEq

namespace Automaton

/-- The state that reading begins in. -/
def start : Automaton → StateId
  | nondeterministic nfa => nfa.start
  | deterministic dfa => dfa.start

/-- Number of states. -/
def size : Automaton → Nat
  | nondeterministic nfa => nfa.size
  | deterministic dfa => dfa.size

/-- Whether a word that ends in a state is accepted. -/
def isAccept : Automaton → StateId → Bool
  | nondeterministic nfa => nfa.isAccept
  | deterministic dfa => dfa.isAccept

/-- The symbols on the edges. -/
def alphabet : Automaton → Alphabet
  | nondeterministic nfa => nfa.alphabet
  | deterministic dfa => dfa.alphabet

/-- All edges, in order. -/
def transitions : Automaton → List Transition
  | nondeterministic nfa => nfa.transitions
  | deterministic dfa => dfa.transitions

/-- The numbers of the states, in order. -/
def states (a : Automaton) : List StateId := List.range a.size

/-- The accepting states, in order. -/
def acceptStates (a : Automaton) : List StateId := a.states.filter a.isAccept

/-- The states that a state stands for, if the automaton records them. -/
def subset? : Automaton → StateId → Checked (Option StateSet)
  | nondeterministic _, _ => .ok none
  | deterministic dfa, id => return some (← dfa.state id).subset

/-- Whether a word is accepted. -/
def accepts : Automaton → List Char → Checked Bool
  | nondeterministic nfa => nfa.accepts
  | deterministic dfa => dfa.accepts

end Automaton

end FiniteAutomata
