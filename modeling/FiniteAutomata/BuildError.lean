import FiniteAutomata.Fault
import FiniteAutomata.SyntaxError
import FiniteAutomata.Token
/-!
# Why an expression gives no automaton

Its text may be wrong, or its tokens may not make one expression: an operator finds too few results
before it, or the tokens end with more or fewer than one result.
-/

namespace FiniteAutomata

/-- Why an expression gives no automaton. -/
inductive BuildError where
  /-- The text is no expression. -/
  | text (cause : SyntaxError)
  /-- The operator `token` at `position` finds only `depth` results; without a token, the tokens end
  at `position` with `depth` results. -/
  | malformed (token? : Option Token) (position depth : Nat)
  /-- A construction met a fault. -/
  | fault (cause : Fault)
  deriving DecidableEq, Repr

namespace BuildError

/-- The cause in one line. -/
def message : BuildError → String
  | text cause => cause.message
  | malformed (some token) position depth =>
    "malformed expression: `" ++ token.text ++ "` at position " ++ position.repr ++ " needs " ++
      token.arity.repr ++ " operand(s), found " ++ depth.repr
  | malformed none position depth =>
    "malformed expression: " ++ depth.repr ++ " fragments left after " ++ position.repr ++
      " tokens, expected 1"
  | fault _ => "inconsistent automaton"

end BuildError

end FiniteAutomata
