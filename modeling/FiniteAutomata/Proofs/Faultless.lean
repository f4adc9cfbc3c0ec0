import FiniteAutomata.Proofs.Dfa.Indexed
import FiniteAutomata.Proofs.Dfa.Worklist
import FiniteAutomata.Proofs.Lexeme
import FiniteAutomata.Proofs.Pattern
/-!
# No faults

Each check that can fail gives a `Fault`: a state, a block or an entry of an array asked for by a wrong
number, or a second target for a symbol. From no text does a pattern fail for such a cause
(`ofTokens_ne_fault`), and what is asked of a pattern is answered (`IsCompiled.faultless`).

Main statement: `faultless_ofText`.
-/

namespace FiniteAutomata.Pattern

variable {p : Pattern} {tokens : List Token} {reading : Except SyntaxError (List Token)}

/-- What is asked of a pattern is answered, its edges lead from state to state, and its automata are
those made with a check at every place of an array that is read or written. -/
structure Faultless (p : Pattern) : Prop where
  isMatch : ∀ input, ∃ b, p.isMatch input = .ok b
  accepts : ∀ s w, ∃ b, (p.stage s).accepts w = .ok b
  dump : ∀ s style, ∃ text, (p.stage s).dump style = .ok text
  transitions : ∀ s, ∀ t ∈ (p.stage s).transitions,
    t.source < (p.stage s).size ∧ t.target < (p.stage s).size
  /-- The search for subsets ends, and none of its checks fails. -/
  search : ∃ last, Dfa.Search.run p.nfa = .ok last ∧ last.dfa = p.dfa
  /-- None of the checks of the merging of blocks fails. -/
  minimal : Dfa.Indexed.minimal p.dfa = .ok p.minimal

theorem IsCompiled.faultless (h : IsCompiled p) : p.Faultless := by
  have hnfa := h.nfa_trim.wellFormed
  have hdfa := h.dfa_trim.wellFormed
  have hminimal := h.canonical.wellFormed
  have hedge : ∀ dfa : Dfa, dfa.WellFormed → ∀ t ∈ dfa.transitions,
      t.source < dfa.size ∧ t.target < dfa.size := by
    intro dfa hdfa t ht
    obtain ⟨c, _, he⟩ := Dfa.mem_transitions.1 ht
    exact ⟨Dfa.lt_size_of_edge he, hdfa.edge_lt he⟩
  constructor
  case isMatch =>
    intro input
    obtain ⟨b, hb, _⟩ := h.accepts_returns .minimal input.toList
    exact ⟨b, hb⟩
  case accepts =>
    intro s w
    obtain ⟨b, hb, _⟩ := h.accepts_returns s w
    exact ⟨b, hb⟩
  case dump => exact fun s style => (p.stage s).dump_returns style
  case transitions =>
    intro s t ht
    cases s with
    | nfa =>
      have he := Nfa.mem_transitions.1 ht
      exact ⟨Nfa.lt_size_of_edge he, hnfa.edge_lt he⟩
    | dfa => exact hedge p.dfa hdfa t ht
    | minimal => exact hedge p.minimal hminimal t ht
  case search =>
    obtain ⟨last, hlast, heq, _⟩ := Dfa.Search.run_returns h.ofNfa_eq
    exact ⟨last, hlast, heq⟩
  case minimal => exact (Dfa.Indexed.minimal_eq_minimal hdfa).trans h.minimal_eq

theorem ofTokens_ne_fault (fault : Fault) : ofTokens tokens ≠ .error (.fault fault) := by
  intro h
  cases hnfa : Nfa.ofTokens tokens with
  | ok nfa =>
    obtain ⟨p, hp, _⟩ := exists_of_nfa hnfa
    cases h.symm.trans hp
  | error error =>
    obtain ⟨token?, position, depth, rfl⟩ := Nfa.exists_malformed_of_error hnfa
    unfold ofTokens at h
    rw [hnfa] at h
    cases h

theorem faultless_of_reading :
    (∀ fault, (do ofTokens (← reading.mapError BuildError.text)) ≠ .error (.fault fault)) ∧
      ∀ p, (do ofTokens (← reading.mapError BuildError.text)) = .ok p → p.Faultless := by
  cases reading with
  | error cause =>
    refine ⟨fun fault h => ?_, fun p h => ?_⟩
    · cases h
    · cases h
  | ok tokens => exact ⟨ofTokens_ne_fault, fun p h => (isCompiled_of_ofTokens h).faultless⟩

/-- **No faults.** Every lexeme of a text is cut out of it at character boundaries, the text makes a
pattern or fails for a cause that lies in it, and what is asked of the pattern is answered. -/
theorem faultless_ofText (text : String) :
    (∀ l ∈ Lexeme.ofText text, Lexeme.at? text.toList l.kind l.span = some l) ∧
      (∀ fault, ofInfix text ≠ .error (.fault fault) ∧ ofPostfix text ≠ .error (.fault fault)) ∧
      ∀ p, ofInfix text = .ok p ∨ ofPostfix text = .ok p → p.Faultless := by
  have hin : (∀ fault, ofInfix text ≠ .error (.fault fault)) ∧
      ∀ p, ofInfix text = .ok p → p.Faultless := faultless_of_reading
  have hpost : (∀ fault, ofPostfix text ≠ .error (.fault fault)) ∧
      ∀ p, ofPostfix text = .ok p → p.Faultless := faultless_of_reading
  refine ⟨fun l hl => Lexeme.at?_of_mem_ofText hl, fun fault => ⟨hin.1 fault, hpost.1 fault⟩, ?_⟩
  rintro p (hp | hp)
  · exact hin.2 p hp
  · exact hpost.2 p hp

/-- An escape behind a character of two bytes. -/
theorem faultless_ofText_escape :
    (⟨.escape, ⟨2, 4⟩, ['\\', '*']⟩ : Lexeme) ∈ Lexeme.ofText "é\\*" ∧
      Lexeme.at? "é\\*".toList .escape ⟨2, 4⟩ = some ⟨.escape, ⟨2, 4⟩, ['\\', '*']⟩ ∧
      ∃ p, ofInfix "é\\*" = .ok p ∧ p.Faultless := by
  obtain ⟨hlexeme, _, hfaultless⟩ := faultless_ofText "é\\*"
  have hl : (⟨.escape, ⟨2, 4⟩, ['\\', '*']⟩ : Lexeme) ∈ Lexeme.ofText "é\\*" := by decide
  have htokens : InfixText.tokens "é\\*" = .ok [.literal 'é', .literal '*', .concat] := by decide
  obtain ⟨p, hp, _⟩ := exists_of_infix htokens
  exact ⟨hl, hlexeme _ hl, p, hp, hfaultless p (Or.inl hp)⟩

end FiniteAutomata.Pattern
