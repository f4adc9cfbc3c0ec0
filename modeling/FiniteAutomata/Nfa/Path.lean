import FiniteAutomata.Nfa
/-!
# Paths

A path goes along edges and spells a word: the symbols on its edges, those that read nothing left
out. Acceptance by a path is what simulation with sets of states has to agree with.
-/

namespace FiniteAutomata

/-- What an edge adds to the word of a path. -/
def Label.word : Label → List Char
  | symbol c => [c]
  | epsilon => []

/-- A path along edges from one state to another that spells a word. -/
inductive Path (edge : StateId → Label → StateId → Prop) : StateId → List Char → StateId → Prop where
  | refl (p : StateId) : Path edge p [] p
  | epsilon {p q r : StateId} {w : List Char} (first : edge p .epsilon q) (rest : Path edge q w r) :
    Path edge p w r
  | symbol {p q r : StateId} {c : Char} {w : List Char} (first : edge p (.symbol c) q)
    (rest : Path edge q w r) : Path edge p (c :: w) r

namespace Path

variable {edge : StateId → Label → StateId → Prop} {p q r : StateId}

theorem cons {l : Label} {w : List Char} (first : edge p l q) (rest : Path edge q w r) :
    Path edge p (l.word ++ w) r := by
  cases l with
  | symbol c => exact .symbol first rest
  | epsilon => exact .epsilon first rest

theorem trans {v w : List Char} (hpq : Path edge p v q) (hqr : Path edge q w r) :
    Path edge p (v ++ w) r := by
  induction hpq with
  | refl => exact hqr
  | epsilon first _ ih => exact .epsilon first (ih hqr)
  | symbol first _ ih => exact .symbol first (ih hqr)

end Path

namespace Nfa

/-- Some path from the start to an accepting state spells the word. -/
def AcceptsByPath (nfa : Nfa) (word : List Char) : Prop :=
  ∃ q, q ∈ nfa.accept ∧ Path nfa.Edge nfa.start word q

end Nfa

end FiniteAutomata
