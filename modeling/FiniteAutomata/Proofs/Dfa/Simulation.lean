import FiniteAutomata.Proofs.Dfa.Canonical
import FiniteAutomata.Proofs.Dfa.Subsets
import FiniteAutomata.Proofs.Transitions
/-!
# The automaton of reachable subsets

A word leads to the state that stands for its live set, and nowhere if that set is empty
(`Explored.run_spec`, `run_ofNfa`). So the automaton accepts what paths accept
(`Explored.accepts_iff`), and since states are found by the pairs of state and symbol in order, their
numbers follow the order of words (`Explored.ranked`).
-/

namespace FiniteAutomata

namespace Dfa

/-- All states are found, and all their edges. -/
abbrev Explored (nfa : Nfa) (dfa : Dfa) : Prop := Growing nfa (fun _ c => c ∈ nfa.alphabet) dfa

namespace Explored

variable {nfa : Nfa} {dfa : Dfa} {p q : Nat} {c : Char} {S : StateSet} {v w : List Char}

theorem wellFormed (h : Explored nfa dfa) : dfa.WellFormed := by
  refine ⟨?_, fun he => (h.edge_lt he).2, fun he => ?_⟩
  · obtain ⟨S, hS, _⟩ := h.initial
    rw [h.start_eq]
    exact hS.lt_size
  · rw [h.alphabet_eq]
    exact (h.edge _ _ _ he).1

theorem next?_spec (h : Explored nfa dfa) (hnfa : nfa.WellFormed) (hS : dfa.Stands nfa q S)
    (hlive : nfa.IsLive v S) (c : Char) :
    match dfa.next? q c with
    | some r => ∃ T, dfa.Stands nfa r T ∧ nfa.IsLive (v ++ [c]) T
    | none => ∀ p, ¬ Path nfa.Edge nfa.start (v ++ [c]) p := by
  obtain ⟨T, hT, hliveT⟩ := hlive.advance hnfa c
  cases hnext : dfa.next? q c with
  | some r =>
    obtain ⟨_, S', T', hS', hT', hstep⟩ := h.edge q c r (edge_iff.2 hnext)
    obtain rfl := hS.unique hS'
    obtain rfl : T = T' := Except.ok.inj (hT.symm.trans hstep)
    exact ⟨T, hT', hliveT⟩
  | none =>
    intro p hpath
    have hne : T.isEmpty = false := by
      rw [Bool.eq_false_iff]
      exact fun hempty => hliveT.isEmpty_iff.1 hempty p hpath
    obtain ⟨_, _, hc⟩ := hpath.exists_of_append
    obtain ⟨_, _, _, he, _⟩ := hc.exists_edge_of_singleton
    obtain ⟨r, hr⟩ := h.complete q c S T (Nfa.mem_alphabet_of_edge he) hS hT hne
    rw [edge_iff, hnext] at hr
    cases hr

theorem run_spec (h : Explored nfa dfa) (hnfa : nfa.WellFormed) (hS : dfa.Stands nfa q S)
    (hlive : nfa.IsLive v S) (w : List Char) :
    match dfa.asPartial.run? q w with
    | some r => ∃ T, dfa.Stands nfa r T ∧ nfa.IsLive (v ++ w) T
    | none => ∀ p, ¬ Path nfa.Edge nfa.start (v ++ w) p := by
  induction w generalizing q S v with
  | nil => exact ⟨S, hS, by simpa using hlive⟩
  | cons c w ih =>
    have hstep := h.next?_spec hnfa hS hlive c
    have hword : v ++ c :: w = (v ++ [c]) ++ w := by simp
    rw [hword, PartialAutomaton.run?_cons]
    show match (dfa.next? q c).bind fun r => dfa.asPartial.run? r w with
      | some r => ∃ T, dfa.Stands nfa r T ∧ nfa.IsLive ((v ++ [c]) ++ w) T
      | none => ∀ p, ¬ Path nfa.Edge nfa.start ((v ++ [c]) ++ w) p
    cases hnext : dfa.next? q c with
    | some r =>
      rw [hnext] at hstep
      obtain ⟨T, hT, hliveT⟩ := hstep
      exact ih hT hliveT
    | none =>
      rw [hnext] at hstep
      intro p hpath
      obtain ⟨p', hp', _⟩ := hpath.exists_of_append
      exact hstep p' hp'

theorem run_start_spec (h : Explored nfa dfa) (hnfa : nfa.WellFormed) (w : List Char) :
    match dfa.asPartial.run? dfa.start w with
    | some r => ∃ T, dfa.Stands nfa r T ∧ nfa.IsLive w T
    | none => ∀ p, ¬ Path nfa.Edge nfa.start w p := by
  obtain ⟨S, hS, hlive⟩ := h.initial
  rw [h.start_eq]
  exact h.run_spec hnfa hS hlive w

theorem mem_accept_iff (hS : dfa.Stands nfa q S) (hlive : nfa.IsLive w S) :
    q ∈ dfa.asPartial.accept ↔ nfa.AcceptsByPath w := by
  show dfa.isAccept q = true ↔ _
  rw [hS.isAccept_eq]
  exact hlive.intersects_iff

theorem accepts_iff (h : Explored nfa dfa) (hnfa : nfa.WellFormed) (w : List Char) :
    dfa.asPartial.Accepts w ↔ nfa.AcceptsByPath w := by
  have hrun := h.run_start_spec hnfa w
  show (∃ r ∈ dfa.asPartial.accept, dfa.asPartial.run? dfa.start w = some r) ↔ _
  cases hw : dfa.asPartial.run? dfa.start w with
  | some r =>
    rw [hw] at hrun
    obtain ⟨T, hT, hlive⟩ := hrun
    rw [← mem_accept_iff hT hlive]
    simp
  | none =>
    rw [hw] at hrun
    simp only [reduceCtorEq, and_false, exists_false, false_iff]
    rintro ⟨p, _, hp⟩
    exact hrun p hp

/-! ## States by what they stand for -/

theorem find?_eq_some_iff (h : Explored nfa dfa) : dfa.find? S = some q ↔ dfa.Stands nfa q S := by
  refine ⟨stands_of_find?_eq_some h.stands, fun hS => ?_⟩
  cases hfind : dfa.find? S with
  | some r => rw [h.distinct r q S (stands_of_find?_eq_some h.stands hfind) hS]
  | none => exact absurd hS (not_stands_of_find?_eq_none hfind)

theorem find?_eq_none_of_isEmpty (h : Explored nfa dfa) (hempty : S.isEmpty = true) :
    dfa.find? S = none := by
  refine Option.eq_none_iff_forall_ne_some.2 fun q hq => ?_
  have hne := (h.live q S (h.find?_eq_some_iff.1 hq)).1
  rw [hempty] at hne
  cases hne

theorem run?_eq_find? (h : Explored nfa dfa) (hnfa : nfa.WellFormed) (hlive : nfa.IsLive w S) :
    dfa.asPartial.run? dfa.start w = dfa.find? S := by
  have hrun := h.run_start_spec hnfa w
  cases hw : dfa.asPartial.run? dfa.start w with
  | some r =>
    rw [hw] at hrun
    obtain ⟨T, hT, hliveT⟩ := hrun
    obtain rfl := hlive.unique hliveT
    exact (h.find?_eq_some_iff.2 hT).symm
  | none =>
    rw [hw] at hrun
    exact (h.find?_eq_none_of_isEmpty (hlive.isEmpty_iff.2 hrun)).symm

theorem find?_eq_none_iff (h : Explored nfa dfa) (hnfa : nfa.WellFormed) (hlive : nfa.IsLive w S) :
    dfa.find? S = none ↔ ∀ p, p ∉ S := by
  rw [← Ordered.isEmpty_iff]
  refine ⟨fun hnone => ?_, h.find?_eq_none_of_isEmpty⟩
  have hrun := h.run_start_spec hnfa w
  rw [h.run?_eq_find? hnfa hlive, hnone] at hrun
  exact hlive.isEmpty_iff.2 hrun

theorem exists_run (h : Explored nfa dfa) (hq : q < dfa.size) :
    ∃ w, dfa.asPartial.run? dfa.start w = some q := by
  induction q using Nat.strongRecOn with
  | _ q ih =>
    by_cases hzero : q = 0
    · exact ⟨[], by rw [h.start_eq, hzero]; rfl⟩
    · obtain ⟨p, c, hp, he⟩ := h.found q (Nat.pos_of_ne_zero hzero) hq
      obtain ⟨w, hw⟩ := ih p hp (h.edge_lt he).1
      refine ⟨w ++ [c], ?_⟩
      rw [PartialAutomaton.run?_snoc, hw]
      exact edge_iff.1 he

/-! ## The order of the states -/

/-- **Order.** States are found in the order of the earliest words that lead to them. -/
theorem ranked (h : Explored nfa dfa) : dfa.Ranked := by
  intro i j w hij hw
  induction w using List.reverseRecOn generalizing i j with
  | nil =>
    obtain rfl : dfa.start = j := Option.some.inj hw
    rw [h.start_eq] at hij
    exact absurd hij (Nat.not_lt_zero i)
  | append_singleton w c ih =>
    by_cases hi : i = 0
    · refine ⟨[], .of_nil (by simp), ?_⟩
      rw [h.start_eq, hi]
      rfl
    rw [PartialAutomaton.run?_snoc] at hw
    obtain ⟨p, hp, hnext⟩ := Option.bind_eq_some_iff.1 hw
    obtain ⟨p', c', hbefore, he⟩ :=
      h.first p c j (edge_iff.2 hnext) i (Nat.pos_of_ne_zero hi) (Nat.le_of_lt hij)
    have hsnoc : ∀ {v}, dfa.asPartial.run? dfa.start v = some p' →
        dfa.asPartial.run? dfa.start (v ++ [c']) = some i := by
      intro v hv
      rw [PartialAutomaton.run?_snoc, hv]
      exact edge_iff.1 he
    rcases hbefore with hlt | ⟨rfl, hle⟩
    · obtain ⟨v, hv, hrun⟩ := ih p' p hlt hp
      exact ⟨v ++ [c'], hv.snoc c' c, hsnoc hrun⟩
    · have hne : c'.toNat ≠ c.toNat := by
        intro heq
        obtain rfl := Symbol.key_injective c' c heq
        obtain rfl : i = j := Option.some.inj ((edge_iff.1 he).symm.trans hnext)
        exact absurd hij (Nat.lt_irrefl i)
      exact ⟨w ++ [c'], Earlier.snoc_of_lt w (Nat.lt_of_le_of_ne hle hne), hsnoc hp⟩

/-! ## Useless states -/

/-- **Trimness.** If every state of the other automaton is on an accepted path, so is every subset. -/
theorem trim (h : Explored nfa dfa) (hnfa : nfa.Trim) : dfa.Trim := by
  have hwf := hnfa.wellFormed
  refine ⟨h.wellFormed, fun q hq => h.exists_run hq, fun q hq => ?_, fun c hc => ?_⟩
  · obtain ⟨v, hv⟩ := h.exists_run hq
    obtain ⟨S, hS⟩ := h.stands q hq
    have hspec := h.run_start_spec hwf v
    rw [hv] at hspec
    obtain ⟨T, hT, hlive⟩ := hspec
    obtain rfl := hS.unique hT
    obtain ⟨p, hp⟩ := List.exists_mem_of_ne_nil _ (List.isEmpty_eq_false_iff.1 (h.live q S hS).1)
    obtain ⟨w, r, hr, hpath⟩ := hnfa.coreach p (hlive.lt_size hwf p hp)
    have haccept : dfa.asPartial.Accepts (v ++ w) :=
      (h.accepts_iff hwf _).2 ⟨r, hr, ((hlive p).1 hp).trans hpath⟩
    exact ⟨w, (PartialAutomaton.acceptsFrom_append hv).1 haccept⟩
  · rw [h.alphabet_eq] at hc
    obtain ⟨p, q, he⟩ := hnfa.used c hc
    obtain ⟨v, hv⟩ := hnfa.reach p (Nfa.lt_size_of_edge he)
    obtain ⟨w, r, hr, hpath⟩ := hnfa.coreach q (hwf.edge_lt he)
    exact ⟨v, w, (h.accepts_iff hwf _).2 ⟨r, hr, hv.trans (.symbol he hpath)⟩⟩

end Explored

/-! ## Step by step -/

/-- **Simulation.** A word leads the automaton of reachable subsets to the state that is found by the
live set of the word, and nowhere if that set is empty. The state records the set and accepts if the
set has an accepting state, so both automata accept the same words. -/
theorem run_ofNfa {nfa : Nfa} (hnfa : nfa.WellFormed) :
    ∃ dfa, ofNfa nfa = .ok dfa ∧ ∀ w, ∃ live b,
      nfa.liveAfter w = .ok live ∧ dfa.run dfa.start w = .ok (dfa.find? live) ∧
      (dfa.find? live = none ↔ ∀ p, p ∉ live) ∧
      (∀ q, dfa.find? live = some q → ∃ s, dfa.state q = .ok s ∧ s.subset = live ∧
        (dfa.isAccept q = true ↔ ∃ p, p ∈ live ∧ p ∈ nfa.accept)) ∧
      nfa.accepts w = .ok b ∧ dfa.accepts w = .ok b := by
  obtain ⟨dfa, hdfa, h⟩ := ofNfa_returns hnfa
  have hwf := Explored.wellFormed h
  refine ⟨dfa, hdfa, fun w => ?_⟩
  obtain ⟨live, hlive, hisLive⟩ := nfa.liveAfter_returns hnfa w
  obtain ⟨b, hb, hb'⟩ := (nfa.accepts_returns hnfa w).exists_of_iff (accepts_returns hwf w)
    (Explored.accepts_iff h hnfa w).symm
  refine ⟨live, b, hlive, ?_, Explored.find?_eq_none_iff h hnfa hisLive, fun q hq => ?_, hb, hb'⟩
  · rw [run_eq hwf hwf.start_lt, Explored.run?_eq_find? h hnfa hisLive]
  · have hS := (Explored.find?_eq_some_iff h).1 hq
    obtain ⟨s, hs, hsubset, _⟩ := id hS
    refine ⟨s, state_eq_ok.2 hs, hsubset, ?_⟩
    rw [hS.isAccept_eq, StateSet.intersects_iff]

/-- An automaton with two ends, a state that leads two ways with one symbol, and a circle of edges
that read nothing. -/
def forked : Nfa where
  states := #[
    ⟨.ofList [('a', .ofList [0, 1])], .ofList [2]⟩,
    ⟨.ofList [('b', .singleton 3)], .empty⟩,
    ⟨.empty, .ofList [0, 3]⟩,
    ⟨.ofList [('b', .singleton 3)], .empty⟩]
  start := 0
  accept := .ofList [1, 3]

theorem run_ofNfa_forked :
    forked.WellFormed ∧
    ∃ dfa, ofNfa forked = .ok dfa ∧ ∀ w, ∃ live b,
      forked.liveAfter w = .ok live ∧ dfa.run dfa.start w = .ok (dfa.find? live) ∧
      (dfa.find? live = none ↔ ∀ p, p ∉ live) ∧
      (∀ q, dfa.find? live = some q → ∃ s, dfa.state q = .ok s ∧ s.subset = live ∧
        (dfa.isAccept q = true ↔ ∃ p, p ∈ live ∧ p ∈ forked.accept)) ∧
      forked.accepts w = .ok b ∧ dfa.accepts w = .ok b := by
  have h : forked.WellFormed := by decide
  exact ⟨h, run_ofNfa h⟩

end Dfa

end FiniteAutomata
