import FiniteAutomata.Pattern
import FiniteAutomata.Text.ControlSequence
/-!
# Journal of a construction

What there is to say about how a pattern came about: the size of each automaton, the subsets in the
order they are found, and the partitions of each pass. The records can be read off the pattern, so a
construction does not write them.
-/

namespace FiniteAutomata

/-- How much a record matters. -/
inductive Level where
  | warn
  | info
  | debug
  | trace
  deriving DecidableEq, Repr

namespace Level

/-- The name of a level in a log. -/
def name : Level → String
  | warn => "WARN"
  | info => "INFO"
  | debug => "DEBUG"
  | trace => "TRACE"

/-- Rank of a level; the higher, the less it matters. -/
def rank : Level → Nat
  | warn => 0
  | info => 1
  | debug => 2
  | trace => 3

/-- Whether a record of this level is shown where records down to `threshold` are. -/
def isShownAt (level threshold : Level) : Bool := level.rank ≤ threshold.rank

end Level

/-- A line of the journal. -/
structure Record where
  level : Level
  /-- The part of the program that it comes from. -/
  target : String
  text : String
  deriving DecidableEq, Repr

namespace Record

/-- The record as a line of a log: a level name takes five columns, further lines of the text are set
in by four blanks, and no command for a terminal gets through. -/
def line (r : Record) : String :=
  let pad := "".pushn ' ' (5 - r.level.name.length)
  let text := "\n    ".intercalate (r.text.splitOn "\n")
  ControlSequence.strip ("[" ++ r.level.name ++ pad ++ " " ++ r.target ++ "] " ++ text ++ "\n")

end Record

namespace Journal

/-- What the construction of the nondeterministic automaton says. -/
def ofNfa (tokens : List Token) (nfa : Nfa) : List Record :=
  [{ level := .debug
     target := "fsmith_lib::compile::thompson"
     text :=
       if tokens.isEmpty then "empty expression: compiling the empty-string automaton"
       else "thompson: " ++ tokens.length.repr ++ " tokens -> " ++ nfa.size.repr ++ " NFA states" }]

/-- What the subset construction says. -/
def ofSubsets (nfa : Nfa) (dfa : Dfa) : List Record :=
  let target := "fsmith_lib::determinize"
  let found := dfa.states.toList.zipIdx.map fun (s, id) =>
    { level := .trace, target
      text := "S" ++ id.repr ++ " = " ++ s.subset.text ++ (if s.isAccept then " (accept)" else "") }
  found ++
    [{ level := .debug, target
       text := "subset construction: " ++ nfa.size.repr ++ " NFA states -> " ++ dfa.size.repr ++
         " DFA states" }]

/-- What the minimisation says. -/
def ofMinimal (dfa minimal : Dfa) : List Record :=
  let target := "fsmith_lib::minimize"
  let trace (text : String) : Record := { level := .trace, target, text }
  let table := TransitionTable.ofDfa dfa
  let passes := match table.passes with
    | .ok passes => passes
    | .error _ => []
  trace ("minimize: " ++ dfa.size.repr ++ " states + dead") ::
    trace ("initial partition: " ++ table.initialPartition.text) ::
    passes.map (fun p => trace ("refined partition: " ++ p.text)) ++
    [{ level := .debug, target
       text := "minimize: " ++ dfa.size.repr ++ " DFA states -> " ++ minimal.size.repr ++ " states" }]

/-- All that the construction of a pattern says. -/
def ofPattern (p : Pattern) : List Record :=
  ofNfa p.tokens p.nfa ++ ofSubsets p.nfa p.dfa ++ ofMinimal p.dfa p.minimal

/-- The records that are shown down to a level. -/
def shownAt (threshold : Level) (records : List Record) : List Record :=
  records.filter (·.level.isShownAt threshold)

end Journal

end FiniteAutomata
