import FiniteAutomata.Text.GraphemeExtend
import FiniteAutomata.Text.Unprintable
/-!
# Characters and texts made visible

A character that would not show, would break the line or would melt into its neighbour is written
with a backslash: a letter for the common ones, the code point in hexadecimal for the others. A text
is written between double quotes, where a single quote can stand as it is.
-/

namespace FiniteAutomata.Quoted

/-- The lower-case hexadecimal digits of `n`, without leading zeros. -/
def hexadecimal (n : Nat) : String := String.ofList (Nat.toDigits 16 n)

/-- The code point of `c` in braces. -/
def codePoint (c : Char) : String := "\\u\x7b" ++ hexadecimal c.toNat ++ "\x7d"

/-- Whether `c` shows as itself. -/
def isPlain (c : Char) : Bool :=
  !CodePoints.graphemeExtend.contains c && !CodePoints.unprintable.contains c

/-- `c` as it is if it shows, with a backslash otherwise; quotes and the backslash take one too. -/
def character (c : Char) : String :=
  match c with
  | '\x00' => "\\0"
  | '\t' => "\\t"
  | '\n' => "\\n"
  | '\r' => "\\r"
  | '\x27' => "\\'"
  | '\x22' => "\\\""
  | '\\' => "\\\\"
  | _ => if isPlain c then c.toString else codePoint c

/-- `s` between double quotes. -/
def text (s : String) : String :=
  "\"" ++ String.join (s.toList.map fun c => if c = '\x27' then "'" else character c) ++ "\""

end FiniteAutomata.Quoted
