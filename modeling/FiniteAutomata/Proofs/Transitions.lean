import FiniteAutomata.Proofs.Dfa.Run
import FiniteAutomata.Proofs.Nfa.Path
/-!
# Edges and their enumeration

The transitions that an automaton lists are its edges, each where its source, label and target say
(`Nfa.mem_transitions`, `Dfa.mem_transitions`). So whether an automaton is well formed can be read off
its list.
-/

namespace FiniteAutomata

/-! ## Nondeterministic automata -/

theorem NfaState.mem_transitions {s : NfaState} {source : StateId} {t : Transition} :
    t ∈ s.transitions source ↔ t.source = source ∧ s.Leads t.label t.target := by
  obtain ⟨p, l, q⟩ := t
  unfold transitions Leads targets?
  simp only [List.mem_append, List.mem_flatMap, List.mem_map, Prod.exists, Ordered.mem_toList,
    Transition.mk.injEq, SymbolMap.get?_eq_some_iff]
  cases l with
  | symbol c =>
    constructor
    · rintro (⟨d, targets, hmem, r, hr, rfl, hlabel, rfl⟩ | ⟨_, _, _, hlabel, _⟩)
      · obtain rfl : d = c := Label.symbol.inj hlabel
        exact ⟨rfl, targets, hmem, hr⟩
      · cases hlabel
    · rintro ⟨rfl, targets, hmem, hq⟩
      exact Or.inl ⟨c, targets, hmem, q, hq, rfl, rfl, rfl⟩
  | epsilon =>
    constructor
    · rintro (⟨_, _, _, _, _, _, hlabel, _⟩ | ⟨r, hr, rfl, _, rfl⟩)
      · cases hlabel
      · exact ⟨rfl, hr⟩
    · rintro ⟨rfl, hq⟩
      exact Or.inr ⟨q, hq, rfl, rfl, rfl⟩

theorem Nfa.mem_transitions {nfa : Nfa} {t : Transition} :
    t ∈ nfa.transitions ↔ nfa.Edge t.source t.label t.target := by
  unfold transitions Edge
  simp only [List.mem_flatMap, Prod.exists, List.mk_mem_zipIdx_iff_getElem?, Array.getElem?_toList,
    NfaState.mem_transitions]
  constructor
  · rintro ⟨s, id, hget, rfl, hs⟩
    exact ⟨s, hget, hs⟩
  · rintro ⟨s, hget, hs⟩
    exact ⟨s, t.source, hget, rfl, hs⟩

theorem Nfa.wellFormed_iff {nfa : Nfa} :
    nfa.WellFormed ↔ nfa.start < nfa.size ∧ ∀ t ∈ nfa.transitions, t.target < nfa.size := by
  constructor
  · intro h
    exact ⟨h.start_lt, fun t ht => h.edge_lt (mem_transitions.1 ht)⟩
  · rintro ⟨hstart, hedge⟩
    exact ⟨hstart, fun {p l q} he => hedge ⟨p, l, q⟩ (mem_transitions.2 he)⟩

instance (nfa : Nfa) : Decidable nfa.WellFormed := decidable_of_iff' _ Nfa.wellFormed_iff

/-! ## Deterministic automata -/

namespace Dfa

theorem mem_transitions {dfa : Dfa} {t : Transition} :
    t ∈ dfa.transitions ↔ ∃ c, t.label = .symbol c ∧ dfa.Edge t.source c t.target := by
  obtain ⟨p, l, q⟩ := t
  unfold transitions Edge
  simp only [List.mem_flatMap, List.mem_map, Prod.exists, List.mk_mem_zipIdx_iff_getElem?,
    Array.getElem?_toList, Ordered.mem_toList, Transition.mk.injEq, SymbolMap.get?_eq_some_iff]
  constructor
  · rintro ⟨s, id, hget, c, r, hcr, rfl, rfl, rfl⟩
    exact ⟨c, rfl, s, hget, hcr⟩
  · rintro ⟨c, rfl, s, hget, hcq⟩
    exact ⟨s, p, hget, c, q, hcq, rfl, rfl, rfl⟩

theorem edgesWithin_iff {dfa : Dfa} :
    dfa.EdgesWithin ↔
      ∀ t ∈ dfa.transitions, t.target < dfa.size ∧ t.label.symbol?.all (· ∈ dfa.alphabet) = true := by
  constructor
  · intro h t ht
    obtain ⟨c, hlabel, he⟩ := mem_transitions.1 ht
    rw [hlabel]
    exact ⟨h.edge_lt he, decide_eq_true (h.edge_mem he)⟩
  · intro hedge
    have hmem : ∀ {p c q}, dfa.Edge p c q → ⟨p, .symbol c, q⟩ ∈ dfa.transitions :=
      fun he => mem_transitions.2 ⟨_, rfl, he⟩
    exact ⟨fun he => (hedge _ (hmem he)).1, fun he => of_decide_eq_true (hedge _ (hmem he)).2⟩

instance (dfa : Dfa) : Decidable dfa.EdgesWithin := decidable_of_iff' _ edgesWithin_iff

theorem wellFormed_iff {dfa : Dfa} :
    dfa.WellFormed ↔ dfa.start < dfa.size ∧ dfa.EdgesWithin :=
  ⟨fun h => ⟨h.start_lt, h.edgesWithin⟩, fun ⟨hstart, h⟩ => ⟨hstart, h.edge_lt, h.edge_mem⟩⟩

instance (dfa : Dfa) : Decidable dfa.WellFormed := decidable_of_iff' _ wellFormed_iff

end Dfa

end FiniteAutomata
