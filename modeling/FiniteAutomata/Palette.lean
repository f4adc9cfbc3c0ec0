/-!
# Colours of a terminal

Escape sequences that switch a colour on and back to the default. Without colours they are all empty.
-/

namespace FiniteAutomata

/-- The sequences that texts are written with. -/
structure Palette where
  /-- Names of states. -/
  blue : String
  /-- What is accepted. -/
  green : String
  /-- What is rejected. -/
  red : String
  /-- What stands back: arrows, edges that read nothing, subsets. -/
  dim : String
  /-- Back to the default. -/
  reset : String
  deriving DecidableEq, Repr

namespace Palette

/-- Colours on. -/
def on : Palette where
  blue := "\x1b[34m"
  green := "\x1b[32m"
  red := "\x1b[31m"
  dim := "\x1b[2m"
  reset := "\x1b[0m"

/-- Colours off. -/
def off : Palette := ⟨"", "", "", "", ""⟩

instance : Inhabited Palette := ⟨off⟩

/-- The palette of a choice. -/
def ofChoice (enabled : Bool) : Palette := if enabled then on else off

/-- Whether the palette has colours. -/
def isEnabled (p : Palette) : Bool := !p.blue.isEmpty

end Palette

end FiniteAutomata
