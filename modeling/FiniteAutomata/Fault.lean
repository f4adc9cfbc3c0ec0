import FiniteAutomata.StateSet
/-!
# Faults

Automata are read by state number, and a number can be wrong. Every such reading is `Checked`: it
gives its answer or the `Fault` that stands in its way, so that the absence of faults can be stated.
-/

namespace FiniteAutomata

/-- What can go wrong inside an automaton that is put together badly, or asked badly. -/
inductive Fault where
  /-- There is no state of this number. -/
  | unknownState (id : StateId)
  /-- A deterministic state would get a second target for a symbol. -/
  | secondTarget (source : StateId) (symbol : Char)
  /-- A block of states without a member. -/
  | emptyBlock
  /-- A construction took more steps than it can need. -/
  | unfinished
  deriving DecidableEq, Repr

/-- A result, or the fault that prevents it. -/
abbrev Checked (α : Type) := Except Fault α

instance {α : Type} [DecidableEq α] : DecidableEq (Checked α)
  | .ok a, .ok b => decidable_of_iff (a = b) ⟨congrArg _, Except.ok.inj⟩
  | .error e, .error f => decidable_of_iff (e = f) ⟨congrArg _, Except.error.inj⟩
  | .ok _, .error _ => isFalse nofun
  | .error _, .ok _ => isFalse nofun

end FiniteAutomata
