import FiniteAutomata.Journal
/-!
# Invocations

What a command line asks for: a command, where its expression comes from, and how to report.
-/

namespace FiniteAutomata.CommandLine

/-- When to use colours. -/
inductive ColorChoice where
  /-- On a terminal. -/
  | auto
  | always
  | never
  deriving DecidableEq, Repr

namespace ColorChoice

instance : Inhabited ColorChoice := ⟨auto⟩

/-- The choice that a word names. -/
def ofName? : String → Option ColorChoice
  | "auto" => some auto
  | "always" => some always
  | "never" => some never
  | _ => none

/-- Whether the choice means colours, on a terminal or off one. -/
def isOn (choice : ColorChoice) (isTerminal : Bool) : Bool :=
  match choice with
  | auto => isTerminal
  | always => true
  | never => false

end ColorChoice

/-- Where an expression comes from: a text given inline goes before a file. -/
structure Source where
  text? : Option String
  file? : Option String
  /-- Whether it is in postfix order. -/
  isPostfix : Bool
  deriving DecidableEq, Repr

/-- What a command does with its expression. -/
inductive Task where
  /-- Print it in postfix order. -/
  | printPostfix
  /-- List the automaton of a stage. -/
  | dump (stage : Stage) (showsSubsets : Bool)
  /-- Draw the automaton of a stage, into a file if one is given. -/
  | dot (stage : Stage) (output? : Option String)
  /-- Try texts on the automaton of a stage. -/
  | tryInputs (stage : Stage) (inputs : List String)
  deriving DecidableEq, Repr

/-- A command line that was understood. -/
structure Invocation where
  /-- The records to show. -/
  level : Level
  source : Source
  color : ColorChoice
  task : Task
  deriving DecidableEq, Repr

end FiniteAutomata.CommandLine
