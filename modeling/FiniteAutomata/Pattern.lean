import FiniteAutomata.Automaton
import FiniteAutomata.Dfa.Minimal
import FiniteAutomata.Dfa.Subsets
import FiniteAutomata.InfixText
import FiniteAutomata.Nfa.Fragment
import FiniteAutomata.PostfixText
import FiniteAutomata.Stage
/-!
# Patterns

A pattern is an expression with the automata of all its stages. It is made from tokens, from infix
text or from postfix text, and a text matches it if the minimal automaton accepts all of the text.
-/

namespace FiniteAutomata

/-- An expression and its automata. -/
structure Pattern where
  /-- The expression in postfix order. -/
  tokens : List Token
  nfa : Nfa
  dfa : Dfa
  minimal : Dfa
  deriving DecidableEq

namespace Pattern

/-- The pattern of an expression in postfix order. -/
def ofTokens (tokens : List Token) : Except BuildError Pattern := do
  let nfa ← Nfa.ofTokens tokens
  let dfa ← (Dfa.ofNfa nfa).mapError .fault
  let minimal ← dfa.minimal.mapError .fault
  return { tokens, nfa, dfa, minimal }

/-- The pattern of a postfix text. -/
def ofPostfix (text : String) : Except BuildError Pattern := do
  ofTokens (← (PostfixText.read text).mapError .text)

/-- The pattern of an infix text. -/
def ofInfix (text : String) : Except BuildError Pattern := do
  ofTokens (← (InfixText.tokens text).mapError .text)

/-- The expression as postfix text. -/
def postfixText (p : Pattern) : String := PostfixText.print p.tokens

/-- Whether the expression has no tokens. -/
def isEmptyExpression (p : Pattern) : Bool := p.nfa.isEmptyExpression

/-- The automaton of a stage. -/
def stage (p : Pattern) : Stage → Automaton
  | .nfa => .nondeterministic p.nfa
  | .dfa => .deterministic p.dfa
  | .minimal => .deterministic p.minimal

/-- Whether all of a text matches. -/
def isMatch (p : Pattern) (input : String) : Checked Bool := p.minimal.accepts input.toList

end Pattern

end FiniteAutomata
