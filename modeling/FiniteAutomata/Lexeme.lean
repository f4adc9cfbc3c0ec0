import FiniteAutomata.Text.LetterOrNumber
import FiniteAutomata.Text.Span
import FiniteAutomata.Text.WhiteSpace
/-!
# Lexemes of an infix text

A text is cut into lexemes: one for each character, but for a backslash, which takes the next
character with it, and for runs of characters that mean nothing, which make one lexeme together.
White space separates and is dropped.
-/

namespace FiniteAutomata

/-- What a lexeme is. -/
inductive LexemeKind where
  /-- `(` -/
  | openGroup
  /-- `)` -/
  | closeGroup
  /-- `|` -/
  | bar
  /-- `.` -/
  | dot
  /-- `*` -/
  | star
  /-- `+` -/
  | plus
  /-- `?` -/
  | question
  /-- A backslash and the character that it makes a symbol. -/
  | escape
  /-- A backslash at the end of the text. -/
  | backslash
  /-- A letter or a number. -/
  | literal
  /-- White space. -/
  | blank
  /-- Characters that mean nothing. -/
  | junk
  deriving DecidableEq, Repr

/-- A piece of a text: what it is, where it lies, and its characters. -/
structure Lexeme where
  kind : LexemeKind
  span : Span
  text : List Char
  deriving DecidableEq, Repr

/-- What a character is on its own. -/
def LexemeKind.ofChar (c : Char) : LexemeKind :=
  match c with
  | '(' => openGroup
  | ')' => closeGroup
  | '|' => bar
  | '.' => dot
  | '*' => star
  | '+' => plus
  | '?' => question
  | '\\' => backslash
  | _ =>
    if CodePoints.letterOrNumber.contains c then literal
    else if CodePoints.whiteSpace.contains c then blank
    else junk

/-- Whether lexemes of this kind are dropped. -/
def LexemeKind.isTrivia (kind : LexemeKind) : Bool := kind = blank

namespace Lexeme

/-- The lexeme of a given kind that lies at `span`, if that cuts the text at character boundaries. -/
def at? (source : List Char) (kind : LexemeKind) (span : Span) : Option Lexeme :=
  (slice? source span).map fun text => ⟨kind, span, text⟩

/-- The first character; U+FFFD stands for that of an empty piece. -/
def first (l : Lexeme) : Char := l.text.headD '\ufffd'

/-- The symbol that a literal or an escape denotes. -/
def symbol? (l : Lexeme) : Option Char :=
  match l.kind with
  | .literal => l.text[0]?
  | .escape => l.text[1]?
  | _ => none

/-- Two neighbours as one piece of the first one's kind. -/
def join (l m : Lexeme) : Lexeme := ⟨l.kind, ⟨l.span.start, m.span.stop⟩, l.text ++ m.text⟩

/-- The pieces of a text that begins at byte `offset`, one for each character or escape. -/
def scan (offset : Nat) : List Char → List Lexeme
  | [] => []
  | '\\' :: c :: rest =>
    let stop := offset + 1 + c.utf8Size
    ⟨.escape, ⟨offset, stop⟩, ['\\', c]⟩ :: scan stop rest
  | c :: rest =>
    let stop := offset + c.utf8Size
    ⟨.ofChar c, ⟨offset, stop⟩, [c]⟩ :: scan stop rest

/-- Neighbouring pieces of junk made one. -/
def joinJunk : List Lexeme → List Lexeme
  | [] => []
  | l :: rest =>
    match joinJunk rest with
    | [] => [l]
    | m :: more => if l.kind = .junk ∧ m.kind = .junk then l.join m :: more else l :: m :: more

/-- The lexemes of a text, white space dropped. -/
def ofText (text : String) : List Lexeme :=
  (joinJunk (scan 0 text.toList)).filter (!·.kind.isTrivia)

end Lexeme

end FiniteAutomata
