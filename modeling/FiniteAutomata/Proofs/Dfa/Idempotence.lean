import FiniteAutomata.Proofs.Dfa.Minimal
import FiniteAutomata.Proofs.Dump
/-!
# Merging twice

In an automaton that comes from merging, no two states accept the same words, only the start may accept
nothing, and no edge leads to a state that accepts nothing (`Merged`). So each of its states has a block
of its own if it is merged again, and since blocks are ordered by their smallest states, every state
keeps its number (`Merged.block_iff`).

Main statement: `minimal_idempotent`.
-/

namespace FiniteAutomata.Dfa

variable {D M N : Dfa} {block : Nat → Row → Prop} {m i q r s : Nat} {c : Char}

/-- Nothing is left to merge or to leave out. -/
structure Merged (dfa : Dfa) : Prop where
  wellFormed : dfa.WellFormed
  start_eq : dfa.start = 0
  reduced : dfa.Reduced
  eq_zero_of_dead : ∀ q < dfa.size, dfa.SameWords q dfa.size → q = 0
  live_of_edge : ∀ {p c q}, dfa.Edge p c q → ¬ dfa.SameWords q dfa.size

namespace IsQuotient

variable (h : IsQuotient D M block)

include h

theorem dead_iff (hblock : block m r) : M.SameWords m M.size ↔ D.SameWords r D.size := by
  rw [sameWords_dead_iff, sameWords_dead_iff]
  exact forall_congr' fun w => not_congr (h.acceptsFrom_iff hblock)

theorem merged (hD : D.WellFormed) : Merged M := by
  refine ⟨h.wellFormed hD, h.start_eq, h.reduced, fun m hm hdead => ?_, fun {p c q} he => ?_⟩
  · obtain ⟨r, hr⟩ := h.nonempty m hm
    exact h.dead m r hr ((h.dead_iff hr).1 hdead)
  · obtain ⟨r, hr⟩ := h.nonempty p (lt_size_of_edge he)
    have hspec := h.next?_spec p r c hr
    rw [edge_iff.1 he] at hspec
    rw [h.dead_iff hspec.1]
    exact hspec.2

end IsQuotient

namespace Merged

variable (h : Merged M) (hN : IsQuotient M N block)

include h hN

theorem eq_of_block (hr : r < M.size) (hs : s < M.size) (hmr : block m r) (hms : block m s) : r = s :=
  h.reduced r hr s hs ((hN.mem_iff m r s hmr).1 hms).2

/-- Every state is in a block, also a start that accepts nothing. -/
theorem exists_block (hr : r < M.size) : ∃ m, block m r := by
  by_cases hdead : M.SameWords r M.size
  · obtain rfl := h.eq_zero_of_dead r hr hdead
    exact ⟨0, h.start_eq ▸ hN.start_mem⟩
  · exact hN.cover r (Nat.le_of_lt hr) hdead

/-- The blocks are those of the first states, each in its place: what comes before is taken by lower
numbers, and the smallest state left is led by no later block. -/
theorem block_self (hi : i < N.size) : i < M.size ∧ block i i := by
  induction i using Nat.strongRecOn with
  | _ i ih =>
    obtain ⟨q, hq, hblock⟩ := hN.exists_state h.wellFormed hi
    rcases Nat.lt_trichotomy q i with hqi | rfl | hiq
    · have hself := (ih q hqi (Nat.lt_trans hqi hi)).2
      exact absurd (hN.inj q i q hself hblock) (Nat.ne_of_lt hqi)
    · exact ⟨hq, hblock⟩
    · have hiM : i < M.size := Nat.lt_trans hiq hq
      obtain ⟨k, hk⟩ := h.exists_block hN hiM
      rcases Nat.lt_trichotomy k i with hki | rfl | hik
      · obtain ⟨hkM, hself⟩ := ih k hki (Nat.lt_trans hki hi)
        exact absurd (h.eq_of_block hN hkM hiM hself hk) (Nat.ne_of_lt hki)
      · exact ⟨hiM, hk⟩
      · rcases Nat.eq_zero_or_pos i with rfl | hpos
        · have hstart : block 0 0 := h.start_eq ▸ hN.start_mem
          exact absurd (hN.inj 0 k 0 hstart hk) (Nat.ne_of_lt hik)
        · -- block `i` is led by a row below `i`, and `q` is its only state
          obtain ⟨r, hr, hleast⟩ := hN.least i k hpos hik (hN.lt_size k i hk)
          have hri := hleast i hk
          obtain rfl := h.eq_of_block hN (Nat.lt_trans hri hiM) hq hr hblock
          exact absurd hri (Nat.not_lt.2 (Nat.le_of_lt hiq))

theorem block_iff (hr : r < M.size) : block m r ↔ m = r := by
  have himp : ∀ {m}, block m r → m = r := by
    intro m hm
    obtain ⟨hmM, hself⟩ := h.block_self hN (hN.lt_size m r hm)
    exact h.eq_of_block hN hmM hr hself hm
  refine ⟨himp, ?_⟩
  rintro rfl
  obtain ⟨k, hk⟩ := h.exists_block hN hr
  exact himp hk ▸ hk

theorem size_eq : M.size = N.size := by
  refine Nat.le_antisymm (le_of_forall_lt fun r hr => ?_) (le_of_forall_lt fun i hi => ?_)
  · exact hN.lt_size r r ((h.block_iff hN hr).2 rfl)
  · exact (h.block_self hN hi).1

theorem next?_eq (hq : q < M.size) (c : Char) : M.next? q c = N.next? q c := by
  have hspec := hN.next?_spec q q c ((h.block_iff hN hq).2 rfl)
  cases hM : M.next? q c with
  | none =>
    rw [rowNext_of_none hM] at hspec
    cases hm : N.next? q c with
    | none => rfl
    | some m =>
      rw [hm] at hspec
      exact absurd (fun _ => Iff.rfl) hspec.2
  | some r =>
    have he := edge_iff.2 hM
    rw [rowNext_of_some hM] at hspec
    cases hm : N.next? q c with
    | none =>
      rw [hm] at hspec
      exact absurd hspec (h.live_of_edge he)
    | some m =>
      rw [hm] at hspec
      rw [(h.block_iff hN (h.wellFormed.edge_lt he)).1 hspec.1]

theorem sameShape : SameShape M N := by
  have hsize := h.size_eq hN
  refine ⟨hsize, h.start_eq.trans hN.start_eq.symm, hN.alphabet_eq.symm, fun q => ?_, fun q c => ?_⟩
  · by_cases hq : q < M.size
    · exact (hN.isAccept_eq q q ((h.block_iff hN hq).2 rfl)).symm
    · rw [isAccept_of_size_le (Nat.not_lt.1 hq), isAccept_of_size_le (hsize ▸ Nat.not_lt.1 hq)]
  · by_cases hq : q < M.size
    · rw [target_eq hq, target_eq (hsize ▸ hq), h.next?_eq hN hq]
    · rw [target_of_size_le (Nat.not_lt.1 hq), target_of_size_le (hsize ▸ Nat.not_lt.1 hq)]

theorem subset_eq {s : DfaState} (hs : N.state i = .ok s) : s.subset = Ordered.singleton i := by
  have hi : i < N.size := (Array.getElem?_eq_some_iff.1 (state_eq_ok.1 hs)).1
  refine Ordered.ext_mem fun q => ?_
  rw [hN.mem_subset_iff hs]
  show _ ↔ q ∈ [i]
  rw [List.mem_singleton]
  constructor
  · rintro ⟨hq, hblock⟩
    exact ((h.block_iff hN hq).1 hblock).symm
  · rintro rfl
    exact h.block_self hN hi

end Merged

/-- **Idempotence.** Merging what comes from merging gives the same automaton, state by state and edge
by edge, so it is listed alike. Each state stands for itself alone. -/
theorem minimal_idempotent (hD : D.WellFormed) :
    ∃ M N, D.minimal = .ok M ∧ M.minimal = .ok N ∧ SameShape M N ∧
      (∃ text, (Automaton.deterministic M).plainDump = .ok text ∧
        (Automaton.deterministic N).plainDump = .ok text) ∧
      ∀ i < M.size, ∃ s, N.state i = .ok s ∧ s.subset = Ordered.singleton i := by
  obtain ⟨M, hM, block, hquotient⟩ := minimal_returns hD
  have h := hquotient.merged hD
  obtain ⟨N, hN, block', hagain⟩ := minimal_returns h.wellFormed
  have hshape := h.sameShape hagain
  obtain ⟨text, htext⟩ := (Automaton.deterministic M).plainDump_returns
  refine ⟨M, N, hM, hN, hshape, ⟨text, htext, hshape.plainDump_eq.symm.trans htext⟩, fun i hi => ?_⟩
  have hi : i < N.states.size := Nat.lt_of_lt_of_eq hi hshape.size_eq
  have hs : N.state i = .ok N.states[i] := state_eq_ok.2 (Array.getElem?_eq_getElem hi)
  exact ⟨_, hs, h.subset_eq hagain hs⟩

/-- The start accepts nothing, so it shares its block with the dead row. States 1 and 2 accept the same
words, and nothing leads to them. -/
def stalled : Dfa where
  states := #[
    ⟨.singleton 0, .ofList [('a', 0)], false⟩,
    ⟨.singleton 1, .ofList [('a', 0), ('b', 2)], true⟩,
    ⟨.singleton 2, .ofList [('b', 1)], true⟩]
  start := 0
  alphabet := .ofList ['a', 'b']

theorem minimal_idempotent_stalled :
    stalled.WellFormed ∧
    ∃ M N, stalled.minimal = .ok M ∧ M.minimal = .ok N ∧ SameShape M N ∧
      (∃ text, (Automaton.deterministic M).plainDump = .ok text ∧
        (Automaton.deterministic N).plainDump = .ok text) ∧
      ∀ i < M.size, ∃ s, N.state i = .ok s ∧ s.subset = Ordered.singleton i := by
  have h : stalled.WellFormed := by decide
  exact ⟨h, minimal_idempotent h⟩

end FiniteAutomata.Dfa
