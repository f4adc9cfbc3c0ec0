import FiniteAutomata.Proofs.Dfa.Minimal
/-!
# Automata without useless parts

`Trim` speaks of the automaton over numbers. `Useful` says of the automaton itself that every state is
on the way from the start to an accepting one, and that the alphabet is what stands on the edges; a trim
automaton is useful (`Trim.useful`).

A trim automaton has no dead state, so its quotient records all its states
(`IsQuotient.exists_state_iff`): the block that is dropped holds the dead row alone.
-/

namespace FiniteAutomata.Dfa

variable {dfa D M : Dfa} {block : Nat → Row → Prop} {q : Nat} {c : Char}

/-- Every state is passed by the reading of some accepted word, and every symbol is on some edge. -/
structure Useful (dfa : Dfa) : Prop where
  reach : ∀ q < dfa.size, ∃ w, dfa.run dfa.start w = .ok (some q)
  live : ∀ q < dfa.size, ∃ w, dfa.AcceptsFrom q w
  mem_alphabet_iff : ∀ c, c ∈ dfa.alphabet ↔ ∃ t ∈ dfa.transitions, t.label = .symbol c

namespace Trim

theorem exists_edge (h : Trim dfa) (hc : c ∈ dfa.alphabet) : ∃ p q, dfa.Edge p c q := by
  obtain ⟨v, w, r, _, hrun⟩ := h.used c hc
  rw [PartialAutomaton.run?_append] at hrun
  obtain ⟨p, _, hrest⟩ := Option.bind_eq_some_iff.1 hrun
  obtain ⟨q, hnext, _⟩ := Option.bind_eq_some_iff.1 hrest
  exact ⟨p, q, edge_iff.2 hnext⟩

theorem mem_alphabet_iff (h : Trim dfa) :
    c ∈ dfa.alphabet ↔ ∃ t ∈ dfa.transitions, t.label = .symbol c := by
  constructor
  · intro hc
    obtain ⟨p, q, he⟩ := h.exists_edge hc
    exact ⟨⟨p, .symbol c, q⟩, mem_transitions.2 ⟨c, rfl, he⟩, rfl⟩
  · rintro ⟨t, ht, hlabel⟩
    obtain ⟨d, hd, he⟩ := mem_transitions.1 ht
    obtain rfl : c = d := Label.symbol.inj (hlabel.symm.trans hd)
    exact h.wellFormed.edge_mem he

theorem useful (h : Trim dfa) : Useful dfa := by
  have hwf := h.wellFormed
  refine ⟨fun q hq => ?_, fun q hq => ?_, fun c => h.mem_alphabet_iff⟩
  · obtain ⟨w, hw⟩ := h.reach q hq
    exact ⟨w, (run_eq hwf hwf.start_lt).trans (congrArg Except.ok hw)⟩
  · obtain ⟨w, hw⟩ := h.live q hq
    exact ⟨w, (acceptsFrom_iff hwf hq).2 hw⟩

theorem not_dead (h : Trim dfa) (hq : q < dfa.size) : ¬ dfa.SameWords q dfa.size := by
  intro hdead
  obtain ⟨w, hw⟩ := h.live q hq
  exact not_acceptsFrom_dead ((hdead w).1 hw)

end Trim

/-- **Cover.** The quotient of a trim automaton records every state, and nothing else. -/
theorem IsQuotient.exists_state_iff (h : IsQuotient D M block) (hD : Trim D) :
    q < D.size ↔ ∃ m s, M.state m = .ok s ∧ q ∈ s.subset := by
  constructor
  · intro hq
    obtain ⟨m, hm⟩ := h.cover q (Nat.le_of_lt hq) (hD.not_dead hq)
    have hlt : m < M.states.size := h.lt_size m q hm
    have hs : M.state m = .ok M.states[m] := state_eq_ok.2 (Array.getElem?_eq_getElem hlt)
    exact ⟨m, _, hs, (h.mem_subset_iff hs).2 ⟨hq, hm⟩⟩
  · rintro ⟨m, s, hs, hmem⟩
    exact ((h.mem_subset_iff hs).1 hmem).1

end FiniteAutomata.Dfa
