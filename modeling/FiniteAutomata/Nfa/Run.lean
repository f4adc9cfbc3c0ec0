import FiniteAutomata.Nfa.Closure
/-!
# Acceptance by simulation

A word is read with the set of all states that the automaton may be in. The word is accepted if that
set meets the accepting states at the end; an empty set stays empty, so the reading stops there.
-/

namespace FiniteAutomata.Nfa

/-- The states that the automaton may be in before it reads. -/
def startSet (nfa : Nfa) : Checked StateSet := nfa.closure (Ordered.singleton nfa.start)

/-- The states that the automaton may be in after it has read a word. -/
def liveAfter (nfa : Nfa) (word : List Char) : Checked StateSet := do
  word.foldlM nfa.advance (← nfa.startSet)

/-- Whether a word is accepted from the states `live`. -/
def acceptsFrom (nfa : Nfa) (live : StateSet) : List Char → Checked Bool
  | [] => .ok (live.intersects nfa.accept)
  | c :: rest => do
    let next ← nfa.advance live c
    if next.isEmpty then return false
    nfa.acceptsFrom next rest

/-- Whether a word is accepted. -/
def accepts (nfa : Nfa) (word : List Char) : Checked Bool := do
  nfa.acceptsFrom (← nfa.startSet) word

end FiniteAutomata.Nfa
