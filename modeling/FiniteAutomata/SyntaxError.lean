import FiniteAutomata.Text.Span
/-!
# What can be wrong with the text of an expression

Each cause carries the span of the text that it blames.
-/

namespace FiniteAutomata

/-- Why a text is no expression. -/
inductive SyntaxError where
  /-- A `(` that is never closed. -/
  | unclosedGroup (span : Span)
  /-- A `)` while no group is open. -/
  | unopenedGroup (span : Span)
  /-- An operator that finds nothing to work on. -/
  | missingOperand (operator : Char) (span : Span)
  /-- A `(` with its `)` and nothing in between. -/
  | emptyGroup (span : Span)
  /-- A run of characters that mean nothing; the first is named. -/
  | unexpectedChar (first : Char) (span : Span)
  /-- A backslash at the end of the text. -/
  | trailingEscape (span : Span)
  deriving DecidableEq, Repr

namespace SyntaxError

/-- The part of the text that is blamed. -/
def span : SyntaxError → Span
  | unclosedGroup s | unopenedGroup s | missingOperand _ s | emptyGroup s | unexpectedChar _ s
  | trailingEscape s => s

/-- The cause in one line. -/
def message : SyntaxError → String
  | unclosedGroup _ => "unclosed group: `(` has no matching `)`"
  | unopenedGroup _ => "unexpected `)`: no group is open"
  | missingOperand op _ => "operator `" ++ op.toString ++ "` has no operand"
  | emptyGroup _ => "empty group `()`"
  | unexpectedChar c _ => "unexpected character `" ++ c.toString ++ "`"
  | trailingEscape _ => "`\\` is not followed by a character to escape"

end SyntaxError

end FiniteAutomata
