import FiniteAutomata.Text.WhiteSpace
/-!
# Tokens of an expression

An expression in postfix order is a list of tokens: symbols, and operators that take the results
before them. Each operator has one character.
-/

namespace FiniteAutomata

/-- A symbol or an operator. -/
inductive Token where
  /-- The symbol `c`. -/
  | literal (c : Char)
  /-- One after the other. -/
  | concat
  /-- One or the other. -/
  | union
  /-- Any number of times. -/
  | star
  /-- At least once. -/
  | plus
  /-- At most once. -/
  | optional
  deriving DecidableEq, Repr

namespace Token

/-- The operator that a character stands for. -/
def ofOperator? : Char → Option Token
  | '.' => some concat
  | '|' => some union
  | '*' => some star
  | '+' => some plus
  | '?' => some optional
  | _ => none

/-- Number of results that a token takes. -/
def arity : Token → Nat
  | literal _ => 0
  | star | plus | optional => 1
  | concat | union => 2

/-- Whether a token takes results. -/
def isOperator : Token → Bool
  | literal _ => false
  | _ => true

/-- Whether a symbol needs a backslash to be read as itself. -/
def needsEscape (c : Char) : Bool :=
  (ofOperator? c).isSome || c = '\\' || c = '(' || c = ')' || CodePoints.whiteSpace.contains c

/-- The characters of a token: an operator's own, a symbol with a backslash where it needs one. -/
def written : Token → List Char
  | literal c => if needsEscape c then ['\\', c] else [c]
  | concat => ['.']
  | union => ['|']
  | star => ['*']
  | plus => ['+']
  | optional => ['?']

/-- The text of a token. -/
def text (t : Token) : String := String.ofList t.written

end Token

end FiniteAutomata
