import FiniteAutomata.Snippet.Column
import FiniteAutomata.Text.Span
/-!
# The lines of a text

The lines of a text with the bytes they cover, and the places in them where a span begins and ends.
-/

namespace FiniteAutomata.Snippet

/-- A line of a text, without its line break. -/
structure Line where
  /-- Counted from 1. -/
  number : Nat
  /-- The byte it begins at. -/
  start : Nat
  /-- The byte behind its line break. -/
  stop : Nat
  text : List Char
  deriving DecidableEq, Repr

/-- A line that ends before a line break loses a carriage return with it. -/
def dropReturn : List Char → List Char
  | '\r' :: reversed => reversed
  | reversed => reversed

/-- The lines of a text, of which the first has already brought `reversed`. -/
def linesFrom (number start : Nat) (reversed : List Char) : List Char → List Line
  | [] =>
    if reversed.isEmpty then []
    else [⟨number, start, start + byteLength reversed, reversed.reverse⟩]
  | c :: rest =>
    if c = '\n' then
      let stop := start + byteLength reversed + 1
      ⟨number, start, stop, (dropReturn reversed).reverse⟩ :: linesFrom (number + 1) stop [] rest
    else linesFrom number start (c :: reversed) rest

/-- The lines of a text; an empty text is one empty line. -/
def lines (source : List Char) : List Line :=
  if source.isEmpty then [⟨1, 0, 0, []⟩] else linesFrom 1 0 [] source

/-- The text of the line of a number. -/
def lineText (lines : List Line) (number : Nat) : List Char :=
  ((lines.find? (·.number = number)).map (·.text)).getD []

/-- The line that a byte is in, its line break included; behind the text it is the last one. -/
def lineAt (source : List Char) (byte : Nat) : Line :=
  let all := lines source
  (all.find? fun l => l.start ≤ byte && byte < l.stop).getD (all.getLast?.getD ⟨1, 0, 0, []⟩)

/-- A place in the lines of a text. -/
structure Place where
  line : Nat
  column : Nat
  deriving DecidableEq, Repr

/-- The column of a byte; none if it lies inside a character. A byte behind the line is at its
end. -/
def Line.column? (l : Line) (byte : Nat) : Option Nat :=
  if byteLength l.text ≤ byte - l.start then some (width l.text)
  else (splitBytes? (byte - l.start) l.text).map fun (front, _) => width front

/-- A span made to lie in a text of `limit` bytes, and to hold a byte if there is one. -/
def adjust (span : Span) (limit : Nat) : Span :=
  let start := min span.start limit
  let stop := min span.stop limit
  if start = stop then ⟨start, min (start + 1) limit⟩ else ⟨start, stop⟩

/-- Where a span begins. -/
def startPlace? (source : List Char) (byte : Nat) : Option Place :=
  let l := lineAt source byte
  (l.column? byte).map (⟨l.number, ·⟩)

/-- Where a span ends that begins at a place. It has a column at least if it stays in one line; a
line break that it ends inside or behind is one column of another line. -/
def stopPlace? (source : List Char) (start : Place) (byte : Nat) : Option Place :=
  let l := lineAt source byte
  (l.column? byte).map fun column =>
    let isOpen :=
      if l.number = start.line then column = start.column else byteLength l.text < byte - l.start
    ⟨l.number, if isOpen then column + 1 else column⟩

end FiniteAutomata.Snippet
