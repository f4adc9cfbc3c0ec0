import FiniteAutomata.Dump
import FiniteAutomata.Proofs.Dfa.Run
/-!
# Automata of one shape

Two automata have the same shape if they are equal but for what their states stand for. They accept
the same words (`SameShape.accepts_eq`) and are listed alike (`SameShape.plainDump_eq`).
-/

namespace FiniteAutomata

namespace Dfa

/-- The automata have the same states, symbols and edges; only what the states stand for may differ. -/
structure SameShape (D E : Dfa) : Prop where
  size_eq : D.size = E.size
  start_eq : D.start = E.start
  alphabet_eq : D.alphabet = E.alphabet
  isAccept_eq : ∀ q, D.isAccept q = E.isAccept q
  target_eq : ∀ q c, D.target q c = E.target q c

namespace SameShape

variable {D E : Dfa} (h : SameShape D E)

include h

theorem run_eq (q : StateId) (w : List Char) : D.run q w = E.run q w := by
  induction w generalizing q with
  | nil => rfl
  | cons c w ih =>
    unfold run
    rw [h.target_eq]
    refine bind_congr fun next? => ?_
    cases next? with
    | none => rfl
    | some next => exact ih next

theorem accepts_eq (w : List Char) : D.accepts w = E.accepts w := by
  unfold accepts
  rw [h.start_eq, h.run_eq]
  refine bind_congr fun end? => ?_
  cases end? with
  | none => rfl
  | some id => exact congrArg Except.ok (h.isAccept_eq id)

theorem edges_eq {i : Nat} (hD : i < D.states.size) (hE : i < E.states.size) :
    D.states[i].edges = E.states[i].edges := by
  refine Ordered.ext_mem fun ⟨c, q⟩ => ?_
  have htarget := h.target_eq i c
  rw [Dfa.target_eq hD, Dfa.target_eq hE, Except.ok.injEq] at htarget
  unfold next? at htarget
  rw [Array.getElem?_eq_getElem hD, Array.getElem?_eq_getElem hE] at htarget
  rw [← SymbolMap.get?_eq_some_iff, ← SymbolMap.get?_eq_some_iff]
  exact Eq.congr_left htarget

theorem transitions_eq : D.transitions = E.transitions := by
  have hedges : D.states.toList.map (·.edges) = E.states.toList.map (·.edges) := by
    have hlength : D.states.size = E.states.size := h.size_eq
    refine List.ext_getElem (by simpa using hlength) fun i hD hE => ?_
    rw [List.getElem_map, List.getElem_map]
    exact h.edges_eq (by simpa using hD) (by simpa using hE)
  have hlist : ∀ dfa : Dfa, dfa.transitions =
      (dfa.states.toList.map (·.edges)).zipIdx.flatMap fun state =>
        state.1.toList.map fun edge => ⟨state.2, .symbol edge.1, edge.2⟩ := by
    intro dfa
    unfold transitions
    rw [List.zipIdx_map, List.flatMap_map]
    rfl
  rw [hlist, hlist, hedges]

theorem plainDump_eq :
    (Automaton.deterministic D).plainDump = (Automaton.deterministic E).plainDump := by
  have hline : DumpStyle.line {} (.deterministic D) = DumpStyle.line {} (.deterministic E) := by
    funext id edges
    unfold DumpStyle.line
    simp only [Automaton.start, Automaton.isAccept, h.start_eq, h.isAccept_eq]
    rfl
  have hlines : ∀ ids edges, DumpStyle.lines {} (.deterministic D) ids edges =
      DumpStyle.lines {} (.deterministic E) ids edges := by
    intro ids
    induction ids with
    | nil => exact fun _ => rfl
    | cons id ids ih =>
      intro edges
      rw [DumpStyle.lines, DumpStyle.lines, hline, ih]
  unfold Automaton.plainDump Automaton.dump Automaton.states
  rw [hlines, show (Automaton.deterministic D).size = (Automaton.deterministic E).size from h.size_eq,
    show (Automaton.deterministic D).transitions = (Automaton.deterministic E).transitions from
      h.transitions_eq]

end SameShape

end Dfa

end FiniteAutomata
