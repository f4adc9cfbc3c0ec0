/-!
# Stages

An expression becomes an automaton in three stages, each with a name.
-/

namespace FiniteAutomata

/-- How far an expression has come. -/
inductive Stage where
  /-- The nondeterministic automaton. -/
  | nfa
  /-- The deterministic automaton of its reachable subsets. -/
  | dfa
  /-- The minimal automaton. -/
  | minimal
  deriving DecidableEq, Repr

namespace Stage

instance : Inhabited Stage := ⟨minimal⟩

/-- The short name of a stage. -/
def name : Stage → String
  | nfa => "nfa"
  | dfa => "dfa"
  | minimal => "min"

/-- The stage that a name stands for; the minimal one has a long name too. -/
def ofName? : String → Option Stage
  | "nfa" => some nfa
  | "dfa" => some dfa
  | "min" => some minimal
  | "minimal" => some minimal
  | _ => none

/-- What to say of a name that stands for no stage. -/
def unknownMessage (name : String) : String :=
  "unknown stage `" ++ name ++ "`, expected nfa, dfa or min"

theorem ofName?_name (s : Stage) : ofName? s.name = some s := by cases s <;> rfl

end Stage

end FiniteAutomata
