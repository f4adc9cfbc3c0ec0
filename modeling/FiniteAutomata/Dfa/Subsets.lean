import FiniteAutomata.Dfa
import FiniteAutomata.Nfa.Run
/-!
# The automaton of reachable subsets

The states of `Dfa.ofNfa nfa` stand for the sets of states that `nfa` may be in, as far as words
lead to them. They are numbered as they are found: breadth first, symbols in ascending order. No
state stands for the empty set.

States are expanded one after the other in the order of their numbers, so the queue of the search is
the part of the array not yet passed. An automaton of `n` states has less than `2 ^ n` subsets to
expand, which bounds the search.
-/

namespace FiniteAutomata.Dfa

/-- The number of the state that stands for `subset`, which is added if there is none. -/
def discover (nfa : Nfa) (dfa : Dfa) (subset : StateSet) : Dfa × StateId :=
  match dfa.find? subset with
  | some id => (dfa, id)
  | none =>
    let s : DfaState := ⟨subset, Ordered.empty, subset.intersects nfa.accept⟩
    ({ dfa with states := dfa.states.push s }, dfa.size)

/-- Give the state `id`, which stands for `subset`, its target for `c`. -/
def expandSymbol (nfa : Nfa) (id : StateId) (subset : StateSet) (dfa : Dfa) (c : Char) : Checked Dfa := do
  let next ← nfa.advance subset c
  if next.isEmpty then return dfa
  let (dfa, target) := discover nfa dfa next
  dfa.addEdge id c target

/-- Give the state `id` all its targets. -/
def expand (nfa : Nfa) (dfa : Dfa) (id : StateId) : Checked Dfa := do
  dfa.alphabet.toList.foldlM (expandSymbol nfa id (← dfa.state id).subset) dfa

/-- Expand the states from `id` on, at most `bound` of them. -/
def expandAll (nfa : Nfa) (bound : Nat) (dfa : Dfa) (id : StateId) : Checked Dfa :=
  if id < dfa.size then
    match bound with
    | 0 => .error .unfinished
    | bound + 1 => do expandAll nfa bound (← dfa.expand nfa id) (id + 1)
  else .ok dfa

/-- The automaton of the subsets that words lead to. -/
def ofNfa (nfa : Nfa) : Checked Dfa := do
  let (dfa, start) := discover nfa ⟨#[], 0, nfa.alphabet⟩ (← nfa.startSet)
  expandAll nfa (Nat.pow 2 nfa.size) { dfa with start } start

end FiniteAutomata.Dfa
