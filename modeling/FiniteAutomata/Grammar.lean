import FiniteAutomata.Expression
import FiniteAutomata.Lexeme
/-!
# The grammar of infix text

Which lists of lexemes are expressions, and which expression each one is. The grammar has a rank for
each way to bind: `|` binds loosest, then concatenation, written `.` or not at all, then the operators
behind their operand, and symbols and groups bind tightest. A rule for two operands takes the looser
rank on its left only, so both binary operators group to the left.
-/

namespace FiniteAutomata.Grammar

/-- How tightly an expression holds together. -/
inductive Rank where
  /-- Alternatives with `|` between them. -/
  | union
  /-- One after the other. -/
  | concat
  /-- Operators behind an operand. -/
  | repetition
  /-- A symbol, or a group in parentheses. -/
  | atom
  deriving DecidableEq, Repr

/-- The lexemes are an expression of the rank. -/
inductive Derives : Rank → List Lexeme → Expression → Prop where
  | symbol {l : Lexeme} {c : Char} (denotes : l.symbol? = some c) : Derives .atom [l] (.symbol c)
  | group {opening closing : Lexeme} {inner : List Lexeme} {e : Expression}
    (isOpening : opening.kind = .openGroup) (isClosing : closing.kind = .closeGroup)
    (inside : Derives .union inner e) : Derives .atom (opening :: inner ++ [closing]) e
  | ofAtom {s : List Lexeme} {e : Expression} (atom : Derives .atom s e) : Derives .repetition s e
  | star {s : List Lexeme} {l : Lexeme} {e : Expression} (operand : Derives .repetition s e)
    (isStar : l.kind = .star) : Derives .repetition (s ++ [l]) (.star e)
  | plus {s : List Lexeme} {l : Lexeme} {e : Expression} (operand : Derives .repetition s e)
    (isPlus : l.kind = .plus) : Derives .repetition (s ++ [l]) (.plus e)
  | optional {s : List Lexeme} {l : Lexeme} {e : Expression} (operand : Derives .repetition s e)
    (isQuestion : l.kind = .question) : Derives .repetition (s ++ [l]) (.optional e)
  | ofRepetition {s : List Lexeme} {e : Expression} (repetition : Derives .repetition s e) :
    Derives .concat s e
  | juxtaposed {s t : List Lexeme} {e f : Expression} (left : Derives .concat s e)
    (right : Derives .repetition t f) : Derives .concat (s ++ t) (.concat e f)
  | concat {s t : List Lexeme} {l : Lexeme} {e f : Expression} (left : Derives .concat s e)
    (isDot : l.kind = .dot) (right : Derives .repetition t f) :
    Derives .concat (s ++ l :: t) (.concat e f)
  | ofConcat {s : List Lexeme} {e : Expression} (concat : Derives .concat s e) : Derives .union s e
  | union {s t : List Lexeme} {l : Lexeme} {e f : Expression} (left : Derives .union s e)
    (isBar : l.kind = .bar) (right : Derives .concat t f) : Derives .union (s ++ l :: t) (.union e f)

theorem Derives.ne_nil {rank : Rank} {s : List Lexeme} {e : Expression} (h : Derives rank s e) :
    s ≠ [] := by
  induction h with
  | ofAtom _ ih | ofRepetition _ ih | ofConcat _ ih => exact ih
  | _ => simp_all

/-- The word belongs to the language of the expression that the text is; a text without lexemes
denotes the empty word alone. -/
def Denotes (text : String) (word : List Char) : Prop :=
  (Lexeme.ofText text = [] ∧ word = []) ∨
    ∃ e, Derives .union (Lexeme.ofText text) e ∧ e.Denotes word

end FiniteAutomata.Grammar
