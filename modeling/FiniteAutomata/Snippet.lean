import FiniteAutomata.Snippet.Line
import FiniteAutomata.Snippet.Window
import FiniteAutomata.SyntaxError
/-!
# A cause shown in its text

The lines of a text that a cause blames, with line numbers in a gutter, carets under the blamed
columns and the message beside them. A span of several lines is joined by a rule on the left from a
mark at its start to a caret at its end; blank lines inside it are not all shown.

The headline and the lines of the text are written in what their characters are shown as. The
message beside the carets has nothing below or behind it to move and is written as it is.
-/

namespace FiniteAutomata.Snippet

/-! ## Lines worth showing -/

/-- Whether a line inside a span is worth showing: it holds more than blanks, a bracket or a
remark. -/
def isTelling (line : List Char) : Bool :=
  let isBlank := CodePoints.whiteSpace.contains
  let text := ((line.dropWhile isBlank).reverse.dropWhile isBlank).reverse
  let begins (mark : String) := mark.toList.isPrefixOf text
  let isRemark := begins "//" && !begins "///" && !begins "//!"
  !isRemark && !(text = [] || text ∈ [['\x7b'], ['\x7d'], ['('], [')'], ['['], [']']])

/-- The lines strictly inside a span from line `first` to line `last` that are shown for their own
sake: up to the last telling one of the first four lines, and a telling line before the last. -/
def innerLines (source : List Line) (first last : Nat) : List Nat :=
  let tells (number : Nat) := isTelling (lineText source number)
  let middle := min (first + 4) last
  let head := (List.range' first (middle - first)).reverse
  let reach := ((head.find? tells).map (· + 1)).getD first
  List.range' (first + 1) (reach - (first + 1)) ++
    (if middle < last - 1 && tells (last - 1) then [last - 1] else [])

/-! ## Rows -/

/-- What all rows of a snippet depend on. -/
structure Layout where
  source : List Line
  /-- Columns of the line numbers. -/
  numberWidth : Nat
  message : List Char
  window : Window

/-- The column of the text when there is a joining rule, or none. -/
def textColumn (numberWidth : Nat) (joined : Bool) : Nat :=
  if joined then numberWidth + 5 else numberWidth + 3

/-- The column, counted from that of the text, of the message behind carets that end at `stop`. -/
def messageColumn (stop : Nat) : Nat := if stop = 0 then 2 else stop + 1

/-- The layout of a span's lines. -/
def Layout.ofSpan (source : List Line) (numberWidth : Nat) (message : List Char)
    (start stop : Place) : Layout :=
  let reach := stop.column + width message + 1
  let joined := start.line ≠ stop.line
  let inner := if joined then innerLines source start.line stop.line else []
  let marks : List Mark :=
    if joined then
      [⟨start.column, start.column + 1, start.column + 1⟩, ⟨stop.column - 1, stop.column, reach⟩]
    else [⟨start.column, stop.column, reach⟩]
  let texts := (start.line :: stop.line :: inner).map (lineText source)
  { source, numberWidth, message
    window := .around (rowSize - textColumn numberWidth joined) texts marks }

namespace Layout

/-- The column of the rule that joins the lines of a span. -/
def joinColumn (l : Layout) : Nat := l.numberWidth + 3

/-- The rule of the gutter. -/
def rule (l : Layout) : InkedRow.Piece := ⟨l.numberWidth + 1, .gutter, ['|']⟩

/-- The text of a line, as it is shown. -/
def shownText (l : Layout) (number : Nat) : List Char := (lineText l.source number).flatMap shown

/-- The part of a line that is shown. -/
def part (l : Layout) (number : Nat) : Window.Part := l.window.part (l.shownText number)

/-- Where a column of a line is shown. -/
def columnIn (l : Layout) (joined : Bool) (place : Place) : Nat :=
  textColumn l.numberWidth joined + place.column - (l.part place.line).skipped

/-- The message behind carets that end at a place. -/
def messagePiece (l : Layout) (joined : Bool) (stop : Place) : InkedRow.Piece :=
  let column := messageColumn stop.column - (l.part stop.line).skipped
  ⟨textColumn l.numberWidth joined + column, .fault, l.message⟩

/-- A line with its number, to the right, and a mark in the column of the joining rule. -/
def sourceRow (l : Layout) (number : Nat) (mark : List Char) (joined : Bool) : InkedRow :=
  let digits := number.repr.toList
  InkedRow.ofPieces
    (⟨0, .gutter, List.replicate (l.numberWidth - digits.length) ' ' ++ digits⟩ :: l.rule ::
      ⟨l.joinColumn, .fault, mark⟩ ::
      (l.part number).pieces.map fun p =>
        { p with column := textColumn l.numberWidth joined + p.column })

/-- A span inside one line: carets under all its columns. -/
def singleLine (l : Layout) (start stop : Place) : List InkedRow :=
  let carets := List.replicate (stop.column - start.column) '^'
  [l.sourceRow start.line [] false,
    InkedRow.ofPieces
      [l.rule, ⟨l.columnIn false start, .fault, carets⟩, l.messagePiece false stop]]

/-- A caret in a column, to which a row leads from the column of the joining rule. -/
def ledCaret (l : Layout) (mark : Char) (column : Nat) : List InkedRow.Piece :=
  [⟨l.joinColumn, .fault, mark :: List.replicate (column - (l.joinColumn + 1)) '_'⟩,
    ⟨column, .fault, ['^']⟩]

/-- The first line of a longer span: a mark before the text if only blanks come before the span, a
caret under its first column otherwise. -/
def firstLine (l : Layout) (start : Place) : List InkedRow :=
  if ((l.shownText start.line).take start.column).all CodePoints.whiteSpace.contains then
    [l.sourceRow start.line ['/'] true]
  else
    [l.sourceRow start.line [] true,
      InkedRow.ofPieces (l.rule :: l.ledCaret ' ' (l.columnIn true start))]

/-- The last line of a longer span: the joining rule turns to a caret under its last column, or
under the first one if the span has none there. -/
def lastLine (l : Layout) (stop : Place) : List InkedRow :=
  let last := { stop with column := stop.column - 1 }
  [l.sourceRow stop.line ['|'] true,
    InkedRow.ofPieces
      (l.rule :: l.messagePiece true stop :: l.ledCaret '|' (l.columnIn true last))]

/-- What is put between two shown lines: a single line left out is shown after all, more are an
ellipsis. A mark in the column of the joining rule stands beside either. -/
def gap (l : Layout) (mark : List Char) (before after : Nat) : List InkedRow :=
  if after - before = 2 then [l.sourceRow (before + 1) mark true]
  else if 2 < after - before then
    [InkedRow.ofPieces [⟨0, .gutter, ellipsis⟩, ⟨l.joinColumn, .fault, mark⟩]]
  else []

/-- The rows of inner lines and of the gaps up to line `last`. -/
def innerRows (l : Layout) (before last : Nat) : List Nat → List InkedRow
  | [] => l.gap ['|'] before last
  | number :: rest =>
    l.gap ['|'] before number ++ l.sourceRow number ['|'] true :: l.innerRows number last rest

/-- A span over several lines. One that ends in a line before its start is shown with that line
first, and no rule joins the two. -/
def manyLines (l : Layout) (start stop : Place) : List InkedRow :=
  if start.line < stop.line then
    l.firstLine start ++
      l.innerRows start.line stop.line (innerLines l.source start.line stop.line) ++ l.lastLine stop
  else l.lastLine stop ++ l.gap [] stop.line start.line ++ l.firstLine start

/-- The message behind the word "error". Where the message breaks its line, the next row goes on
under its beginning. -/
def headline (l : Layout) : List InkedRow :=
  let lead := "error".toList
  let colon := ": ".toList
  match (l.message.flatMap shown).splitOn '\n' with
  | [] => []
  | first :: rest =>
    InkedRow.ofPieces [⟨0, .fault, lead⟩, ⟨lead.length, .headline, colon ++ first⟩] ::
      rest.map fun text => InkedRow.ofPieces [⟨lead.length + colon.length, .headline, text⟩]

/-- All rows: the headline, an empty row, and the span. -/
def rows (l : Layout) (start stop : Place) : List InkedRow :=
  l.headline ++ InkedRow.ofPieces [l.rule] ::
    (if start.line = stop.line then l.singleLine start stop else l.manyLines start stop)

end Layout

/-- A cause shown in its text, without a line break at the end; none if its span cuts a
character. -/
def render? (cause : SyntaxError) (source : String) (colored : Bool) : Option String := do
  let text := source.toList
  let span := adjust cause.span (byteLength text)
  let (before, _) ← splitBytes? span.stop text
  let start ← startPlace? text span.start
  let stop ← stopPlace? text start span.stop
  let numberWidth := (lines before).length.repr.length
  let layout := Layout.ofSpan (lines text) numberWidth cause.message.toList start stop
  return "\n".intercalate ((layout.rows start stop).map (InkedRow.text · colored))

end FiniteAutomata.Snippet
