import FiniteAutomata.CommandLine.Arguments
/-!
# Usage

What is said about the command line itself: how it is used, and why one was refused.
-/

namespace FiniteAutomata.CommandLine

/-- How the commands are used. -/
def usage : String :=
  "Compile regular expressions to nondeterministic, deterministic and minimal automata\n" ++
  "\n" ++
  "Usage:\n" ++
  "  postfix EXPR           print an expression in postfix order\n" ++
  "  dump EXPR              print the states and edges of an automaton\n" ++
  "  dot EXPR               print an automaton as a DOT graph\n" ++
  "  match EXPR INPUT...    test whether inputs are in the language of an expression\n" ++
  "\n" ++
  "Options:\n" ++
  "  -f, --file FILE        read the expression from a file (- for the standard input)\n" ++
  "      --postfix          take the expression for postfix text\n" ++
  "      --stage STAGE      automaton to use: nfa, dfa or min\n" ++
  "      --subsets          show the states that each state stands for\n" ++
  "  -o, --output FILE      write the graph to a file\n" ++
  "      --color WHEN       colours: auto, always or never\n" ++
  "  -v, --verbose          tell more; twice, tell all\n" ++
  "  -h, --help             print this help\n"

namespace UsageError

/-- What is said of it. -/
def message : UsageError → String
  | argumentConflict => "an argument cannot be used with another one, or is given twice"
  | invalidValue => "a value is missing or not allowed"
  | unknownArgument => "an argument is not expected"
  | tooManyValues => "an option that takes no value is given one"
  | invalidSubcommand => "the command is not known"
  | missingSubcommand | nothingGiven => "a command is required"
  | help => "help is asked for"

/-- The exit status: asking for help is no mistake. -/
def code : UsageError → Nat
  | help => 0
  | _ => 2

end UsageError

end FiniteAutomata.CommandLine
