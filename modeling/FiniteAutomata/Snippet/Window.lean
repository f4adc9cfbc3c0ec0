import FiniteAutomata.Snippet.Column
import FiniteAutomata.Text.Ink
import FiniteAutomata.Text.WhiteSpace
/-!
# The window on the lines

Lines that all begin with many blanks, or that are longer than a row of the display, are shown
through a window: the same columns of each, with an ellipsis where something is left out. The window
is laid so that the marks below the lines can be seen, and the message beside them if there is room:
it never begins behind the first mark.
-/

namespace FiniteAutomata.Snippet

/-- Columns of a row of the display. -/
def rowSize : Nat := 140

/-- Columns that are kept on both sides of what has to be seen, as room for an ellipsis. -/
def margin : Nat := 6

/-- What stands for the part of a line that is left out. -/
def ellipsis : List Char := ['.', '.', '.']

/-- A mark below a line, from one column up to another. -/
structure Mark where
  start : Nat
  stop : Nat
  /-- The column behind the message that stands beside the mark. -/
  reach : Nat

/-- The blanks that a line begins with; none if it holds nothing else. -/
def indent? (text : List Char) : Option Nat :=
  let blanks := text.takeWhile CodePoints.whiteSpace.contains
  if blanks.length = text.length then none
  else some (blanks.foldl (fun n c => n + if c = '\t' then 4 else 1) 0)

/-- The columns of the lines that are shown. -/
structure Window where
  /-- Columns left out of each line. -/
  left : Nat
  /-- The column behind the last one shown of a line with more than `size` columns. -/
  right : Nat
  /-- Columns of a row. -/
  size : Nat
  deriving DecidableEq, Repr

namespace Window

/-- The window of `size` columns on lines with the given texts and marks. Of many blanks in front of
the marks it leaves out all but a few. If that is not enough, it keeps the lines and the message, or
the marks and the message, or the marks alone, whichever is the first to fit. -/
def around (size : Nat) (texts : List (List Char)) (marks : List Mark) : Window :=
  let firstMark := (marks.map fun m => min m.start m.stop).min?.getD 0
  let first := firstMark - margin
  let indent := min ((texts.filterMap indent?).min?.getD 0) firstMark - margin
  let last := (marks.map fun m => max m.start m.stop).foldl max 0 + margin
  let reach := (marks.map (·.reach)).foldl max 0 + margin
  let left := if 20 < indent then indent - 16 else 0
  let right := max ((texts.map width).foldl max 0) left
  let fromColumn (left : Nat) : Window := ⟨left, left + size, size⟩
  if right - left ≤ size then ⟨left, right, size⟩
  else if reach - indent ≤ size then fromColumn indent
  else if reach - first ≤ size then fromColumn (first - (size - (reach - first)) / 2)
  else if last - first ≤ size then fromColumn (first - (size - (last - first)) / 5 * 2)
  else ⟨first, last, size⟩

/-- The part of a line that is shown. -/
structure Part where
  /-- Columns left out before it. -/
  skipped : Nat
  /-- Its pieces, as if the line began at column 0. -/
  pieces : List InkedRow.Piece

/-- The part of a line that a window shows. An ellipsis takes the place of the characters that it
covers. -/
def part (w : Window) (text : List Char) : Part :=
  let whole := width text
  let left := min w.left whole
  let right := if whole - w.left ≤ w.size then whole else min whole w.right
  let (gone, behind) := dropColumns left text
  let kept := takeColumns (right - left) behind
  let (covered, body) := if w.left = 0 then (0, kept) else dropColumns ellipsis.length kept
  let (_, reversed) := dropColumns ellipsis.length kept.reverse
  let before := if w.left = 0 then [] else ellipsis
  let after := if right < whole then ellipsis else []
  { skipped := max left gone
    pieces := [⟨0, .gutter, before⟩, ⟨covered, .plain, body⟩,
      ⟨covered + body.length - (kept.length - reversed.length), .gutter, after⟩] }

end Window

end FiniteAutomata.Snippet
