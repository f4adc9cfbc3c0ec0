import FiniteAutomata.Text.Width
/-!
# What a character of a line is shown as

Columns are those of a fixed-width display. Tabs become four blanks, and control characters become
pictures of themselves, so that nothing moves what is written below.
-/

namespace FiniteAutomata.Snippet

/-- Marks that turn the direction of writing, which are never shown. -/
def isDirectionMark (c : Char) : Bool :=
  (0x202a ≤ c.toNat && c.toNat ≤ 0x202e) || (0x2066 ≤ c.toNat && c.toNat ≤ 0x2069)

/-- Control characters that have a picture, the tab and the line break apart. -/
def isPictured (c : Char) : Bool := c.toNat < 0x20 || c.toNat = 0x7f

/-- What a character is shown as. -/
def shown (c : Char) : List Char :=
  if c = '\t' then [' ', ' ', ' ', ' ']
  else if c = '\n' then [c]
  else if c.toNat = 0x7f then ['\u2421']
  else if isPictured c then [Char.ofNat (0x2400 + c.toNat)]
  else if c = '\u200d' then []
  else if isDirectionMark c then ['\ufffd']
  else [c]

/-- The columns that a character of a line takes. -/
def columns (c : Char) : Nat :=
  if c = '\t' then 4
  else if isPictured c || isDirectionMark c then 1
  else displayWidth c

/-- The columns of a list of characters. -/
def width : List Char → Nat
  | [] => 0
  | c :: rest => columns c + width rest

/-- The text behind its first `n` columns, and how many columns come before it: more than `n` if a
wide character lies across. -/
def dropColumns (n : Nat) : List Char → Nat × List Char
  | [] => (0, [])
  | c :: rest =>
    if n = 0 then (0, c :: rest)
    else
      let (gone, behind) := dropColumns (n - columns c) rest
      (columns c + gone, behind)

/-- The longest front of a text that takes no more than `n` columns. -/
def takeColumns (n : Nat) : List Char → List Char
  | [] => []
  | c :: rest => if columns c ≤ n then c :: takeColumns (n - columns c) rest else []

end FiniteAutomata.Snippet
