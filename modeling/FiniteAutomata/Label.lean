import FiniteAutomata.StateSet
import FiniteAutomata.Text.Quoted
/-!
# Labels and transitions

An edge of an automaton carries a symbol or nothing at all. Transitions are ordered by source, then
label (symbols by code point, epsilon after all of them), then target.
-/

namespace FiniteAutomata

/-- What an edge carries. -/
inductive Label where
  /-- The edge reads `c`. -/
  | symbol (c : Char)
  /-- The edge reads nothing. -/
  | epsilon
  deriving DecidableEq, Repr

namespace Label

/-- Whether the edge reads nothing. -/
def isEpsilon : Label → Bool
  | symbol _ => false
  | epsilon => true

/-- The symbol, if there is one. -/
def symbol? : Label → Option Char
  | symbol c => some c
  | epsilon => none

/-- Symbols are made visible; nothing is written `ε`. -/
def text : Label → String
  | symbol c => Quoted.character c
  | epsilon => "ε"

/-- Symbols by code point, then epsilon. -/
def compare : Label → Label → Ordering
  | symbol c, symbol d => if c.toNat < d.toNat then .lt else if d.toNat < c.toNat then .gt else .eq
  | symbol _, epsilon => .lt
  | epsilon, symbol _ => .gt
  | epsilon, epsilon => .eq

/-- The labels in ascending order. -/
def sort (labels : List Label) : List Label := labels.mergeSort fun a b => (compare a b).isLE

end Label

/-- An edge of an automaton. -/
structure Transition where
  source : StateId
  label : Label
  target : StateId
  deriving DecidableEq, Repr

namespace Transition

/-- By source, then label, then target. -/
def compare (a b : Transition) : Ordering :=
  (Ord.compare a.source b.source).then <|
    (a.label.compare b.label).then (Ord.compare a.target b.target)

/-- The transitions in ascending order. -/
def sort (transitions : List Transition) : List Transition :=
  transitions.mergeSort fun a b => (compare a b).isLE

end Transition

end FiniteAutomata
