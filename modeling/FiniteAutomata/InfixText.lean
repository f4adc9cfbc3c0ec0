import FiniteAutomata.Lexeme
import FiniteAutomata.SyntaxError
import FiniteAutomata.Token
/-!
# Infix text

Reading an expression that people write. `|` binds loosest, then concatenation, written `.` or by
juxtaposition, then the operators `*`, `+` and `?` behind their operand. Both binary operators group
to the left.

The reader keeps the tokens that are settled, and a stack of what waits: open groups and binary
operators whose second operand is still to come. An operator behind its operand is settled at once.
`tokens` gives the tokens in postfix order or the first cause why there are none.
-/

namespace FiniteAutomata.InfixText

/-- An operator between two operands. -/
inductive Binary where
  | union
  | concat
  deriving DecidableEq, Repr

namespace Binary

/-- The operator as a token. -/
def token : Binary → Token
  | union => .union
  | concat => .concat

/-- How tightly the operator binds. -/
def precedence : Binary → Nat
  | union => 1
  | concat => 2

end Binary

/-- What waits for the text to go on. -/
inductive Pending where
  /-- A group, with the span of its `(`. -/
  | group (span : Span)
  /-- An operator that has its first operand. -/
  | operator (op : Binary)
  deriving DecidableEq, Repr

/-- Whether it is an open group. -/
def Pending.isGroup : Pending → Bool
  | group _ => true
  | operator _ => false

/-- A reader in the middle of a text. -/
structure Reader where
  /-- Settled tokens, in postfix order. -/
  output : Array Token
  /-- What waits, the latest first. -/
  stack : List Pending
  /-- Whether an operand has to come next. -/
  expectsOperand : Bool
  /-- The lexeme read last. -/
  last? : Option Lexeme
  deriving DecidableEq, Repr

namespace Reader

/-- A reader before the text. -/
def start : Reader := ⟨#[], [], true, none⟩

/-- Settle the waiting operators that bind at least as tightly as `op`, back to the open group. -/
def settle (op : Binary) (output : Array Token) : List Pending → Array Token × List Pending
  | .operator top :: rest =>
    if top.precedence < op.precedence then (output, .operator top :: rest)
    else settle op (output.push top.token) rest
  | stack => (output, stack)

/-- Let `op` wait, after what goes before it. -/
def pushBinary (op : Binary) : Reader → Reader
  | ⟨output, stack, expectsOperand, last?⟩ =>
    let (output, stack) := settle op output stack
    ⟨output, .operator op :: stack, expectsOperand, last?⟩

/-- An operand right after an operand is concatenated to it. -/
def juxtapose (r : Reader) : Reader := if r.expectsOperand then r else pushBinary .concat r

/-- Settle the symbol that `l` denotes. -/
def pushSymbol (l : Lexeme) : Reader → Reader
  | ⟨output, stack, _, _⟩ =>
    let output := match l.symbol? with
      | some c => output.push (.literal c)
      | none => output
    ⟨output, stack, false, some l⟩

/-- Settle what waits up to the innermost open group, and close that group. -/
def closeGroup (output : Array Token) : List Pending → Array Token × List Pending
  | [] => (output, [])
  | .group _ :: rest => (output, rest)
  | .operator op :: rest => closeGroup (output.push op.token) rest

/-- The cause when `l` comes where an operand should: an empty group, or the operator before it, or `l`. -/
def missingOperand (r : Reader) (l : Lexeme) : SyntaxError :=
  match r.last? with
  | some m =>
    if m.kind = .openGroup ∧ l.kind = .closeGroup then .emptyGroup ⟨m.span.start, l.span.stop⟩
    else if m.kind = .bar ∨ m.kind = .dot then .missingOperand m.first m.span
    else .missingOperand l.first l.span
  | none => .missingOperand l.first l.span

/-- An operator between operands. -/
def binary (r : Reader) (l : Lexeme) (op : Binary) : Except SyntaxError Reader :=
  if r.expectsOperand then .error (r.missingOperand l)
  else .ok { pushBinary op r with expectsOperand := true, last? := some l }

/-- An operator behind its operand. -/
def repetition (r : Reader) (l : Lexeme) (token : Token) : Except SyntaxError Reader :=
  if r.expectsOperand then .error (.missingOperand l.first l.span)
  else .ok { r with output := r.output.push token, last? := some l }

/-- The reader after one more lexeme. -/
def feed (r : Reader) (l : Lexeme) : Except SyntaxError Reader :=
  match l.kind with
  | .literal | .escape => .ok (pushSymbol l r.juxtapose)
  | .openGroup =>
    let r := r.juxtapose
    .ok { r with stack := .group l.span :: r.stack, expectsOperand := true, last? := some l }
  | .closeGroup =>
    if !r.stack.any Pending.isGroup then .error (.unopenedGroup l.span)
    else if r.expectsOperand then .error (r.missingOperand l)
    else
      let (output, stack) := closeGroup r.output r.stack
      .ok { output, stack, expectsOperand := false, last? := some l }
  | .bar => r.binary l .union
  | .dot => r.binary l .concat
  | .star => r.repetition l .star
  | .plus => r.repetition l .plus
  | .question => r.repetition l .optional
  | .backslash => .error (.trailingEscape l.span)
  | .junk => .error (.unexpectedChar l.first l.span)
  | .blank => .ok r

/-- Settle all that waits; an open group must not be among it. -/
def settleAll (output : Array Token) : List Pending → Except SyntaxError (Array Token)
  | [] => .ok output
  | .group span :: _ => .error (.unclosedGroup span)
  | .operator op :: rest => settleAll (output.push op.token) rest

/-- The tokens of a text that ends here. -/
def finish (r : Reader) : Except SyntaxError (List Token) :=
  match r.last? with
  | none => .ok r.output.toList
  | some l =>
    if r.expectsOperand then
      if l.kind = .openGroup then .error (.unclosedGroup l.span)
      else .error (.missingOperand l.first l.span)
    else return (← settleAll r.output r.stack).toList

end Reader

/-- The tokens of a list of lexemes, in postfix order. -/
def ofLexemes (lexemes : List Lexeme) : Except SyntaxError (List Token) := do
  (← lexemes.foldlM Reader.feed Reader.start).finish

/-- The tokens of a text, in postfix order; a text without lexemes has none. -/
def tokens (text : String) : Except SyntaxError (List Token) := ofLexemes (Lexeme.ofText text)

end FiniteAutomata.InfixText
