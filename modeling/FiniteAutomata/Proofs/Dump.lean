import FiniteAutomata.Dump
import FiniteAutomata.Proofs.Dfa.Run
/-!
# Listings without faults

A listing asks for the states of its automaton only, so it can be made of any automaton, however it is
to look (`Automaton.dump_returns`).
-/

namespace FiniteAutomata

variable {a : Automaton} {id : StateId}

theorem Automaton.subset?_returns (hid : id < a.size) : ∃ subset?, a.subset? id = .ok subset? := by
  cases a with
  | nondeterministic nfa => exact ⟨none, rfl⟩
  | deterministic dfa =>
    have hlt : id < dfa.states.size := hid
    have hs : dfa.state id = .ok dfa.states[id] := Dfa.state_eq_ok.2 (Array.getElem?_eq_getElem hlt)
    show ∃ subset?, (do return some (← dfa.state id).subset : Checked (Option StateSet)) = .ok subset?
    rw [hs]
    exact ⟨_, rfl⟩

namespace DumpStyle

theorem line_returns (style : DumpStyle) (hid : id < a.size) (edges : List Transition) :
    ∃ text, style.line a id edges = .ok text := by
  obtain ⟨subset?, hsubset⟩ := a.subset?_returns hid
  unfold line
  cases style.showsSubsets with
  | true =>
    rw [if_pos rfl, hsubset]
    exact ⟨_, rfl⟩
  | false => exact ⟨_, rfl⟩

theorem lines_returns (style : DumpStyle) {ids : List StateId} (hids : ∀ id ∈ ids, id < a.size)
    (edges : List Transition) : ∃ lines, style.lines a ids edges = .ok lines := by
  induction ids generalizing edges with
  | nil => exact ⟨[], rfl⟩
  | cons id ids ih =>
    obtain ⟨hid, hids⟩ := List.forall_mem_cons.1 hids
    obtain ⟨text, htext⟩ := style.line_returns hid (edges.takeWhile (·.source = id))
    obtain ⟨rest, hrest⟩ := ih hids (edges.dropWhile (·.source = id))
    rw [lines, htext, hrest]
    exact ⟨_, rfl⟩

end DumpStyle

namespace Automaton

theorem dump_returns (a : Automaton) (style : DumpStyle) : ∃ text, a.dump style = .ok text := by
  have hids : ∀ id ∈ a.states, id < a.size := fun _ hid => List.mem_range.1 hid
  obtain ⟨lines, hlines⟩ := style.lines_returns hids a.transitions
  unfold dump
  rw [hlines]
  exact ⟨_, rfl⟩

theorem plainDump_returns (a : Automaton) : ∃ text, a.plainDump = .ok text := a.dump_returns {}

end Automaton

end FiniteAutomata
