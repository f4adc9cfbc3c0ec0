/-!
# Rows of inked text

A row is a list of characters, each with the ink it is written in. Rows are put together from pieces
that begin at given columns, blanks in between; a piece covers what was there before. Written
without colours the inks are forgotten; with colours each run of one ink stands between its escape
sequence and the reset.
-/

namespace FiniteAutomata

/-- What a character is written in. -/
inductive Ink where
  /-- No ink of its own. -/
  | plain
  /-- Line numbers and the rule beside them. -/
  | gutter
  /-- What is wrong, and where. -/
  | fault
  /-- The headline. -/
  | headline
  deriving DecidableEq, Repr

/-- The escape sequence that switches an ink on. -/
def Ink.sequence : Ink → String
  | plain => ""
  | gutter => "\x1b[1m\x1b[94m"
  | fault => "\x1b[1m\x1b[91m"
  | headline => "\x1b[1m"

/-- Characters with their inks. -/
abbrev InkedRow := List (Char × Ink)

namespace InkedRow

/-- A text that begins at a column. -/
structure Piece where
  column : Nat
  ink : Ink
  text : List Char

/-- `row` with a piece over it; blanks lead up to a piece that begins behind the row. -/
def put (row : InkedRow) (piece : Piece) : InkedRow :=
  if piece.text.isEmpty then row
  else
    let before := row ++ List.replicate (piece.column - row.length) (' ', .plain)
    before.take piece.column ++ piece.text.map (·, piece.ink) ++
      row.drop (piece.column + piece.text.length)

/-- The row of some pieces, later ones over earlier ones. -/
def ofPieces (pieces : List Piece) : InkedRow := pieces.foldl put []

/-- The characters alone. -/
def plainText (row : InkedRow) : String := String.ofList (row.map Prod.fst)

/-- A run of one ink. -/
def run (text : List Char) (ink : Ink) : String :=
  if ink = .plain then String.ofList text else ink.sequence ++ String.ofList text ++ "\x1b[0m"

/-- The runs of a row; `text` is what has come of the current one, last character first. -/
def runsFrom (text : List Char) (ink : Ink) : InkedRow → String
  | [] => run text.reverse ink
  | (c, next) :: rest =>
    if next = ink then runsFrom (c :: text) ink rest
    else run text.reverse ink ++ runsFrom [c] next rest

/-- The row with escape sequences. -/
def inkedText : InkedRow → String
  | [] => ""
  | (c, ink) :: rest => runsFrom [c] ink rest

/-- The row with or without escape sequences. -/
def text (row : InkedRow) (colored : Bool) : String :=
  if colored then inkedText row else plainText row

end InkedRow

end FiniteAutomata
