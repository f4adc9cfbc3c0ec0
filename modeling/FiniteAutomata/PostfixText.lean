import FiniteAutomata.SyntaxError
import FiniteAutomata.Token
/-!
# Postfix text

Tokens written one after the other. Reading takes every character for a token of its own: white
space is skipped, a backslash makes the next character a symbol, and an operator character is its
operator. The only text that cannot be read ends in a backslash that has no character to work on.
-/

namespace FiniteAutomata.PostfixText

/-- The tokens of a text that begins at byte `offset`. -/
def readFrom (offset : Nat) : List Char → Except SyntaxError (List Token)
  | [] => .ok []
  | ['\\'] => .error (.trailingEscape ⟨offset, offset + 1⟩)
  | '\\' :: c :: rest => return .literal c :: (← readFrom (offset + 1 + c.utf8Size) rest)
  | c :: rest => do
    let tokens ← readFrom (offset + c.utf8Size) rest
    if CodePoints.whiteSpace.contains c then return tokens
    return (Token.ofOperator? c).getD (.literal c) :: tokens

/-- The tokens of a text. -/
def read (text : String) : Except SyntaxError (List Token) := readFrom 0 text.toList

/-- Tokens written without separators, so that `read` gives them back. -/
def print (tokens : List Token) : String := String.ofList (tokens.flatMap Token.written)

end FiniteAutomata.PostfixText
