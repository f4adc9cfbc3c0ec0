import FiniteAutomata.Proofs.Dfa.Blocks
import FiniteAutomata.Proofs.Dfa.Canonical
import FiniteAutomata.Proofs.Transitions
/-!
# The minimal automaton

A quotient accepts the words of the automaton that it is made from (`IsQuotient.sameLanguage`), no two
of its states accept the same words (`IsQuotient.reduced`), and its numbers keep the order in which
words lead to states (`IsQuotient.ranked`). So the quotient of a trim automaton whose states are
ranked is canonical (`IsQuotient.canonical`).

Trim or not, the states of the automaton that a state of the quotient records are those that it
stands for, on every run (`minimal_merges`).
-/

namespace FiniteAutomata.Dfa

variable {D M : Dfa} {block : Nat → Row → Prop} {m m' r q : Nat} {w : List Char}

theorem SameWords.dead_of_run (h : D.SameWords r D.size) (hrun : D.asPartial.run? r w = some q) :
    D.SameWords q D.size := by
  intro u
  rw [← PartialAutomaton.acceptsFrom_append hrun, h (w ++ u)]
  exact iff_of_false not_acceptsFrom_dead not_acceptsFrom_dead

namespace IsQuotient

variable (h : IsQuotient D M block)

include h

theorem acceptsFrom_iff (hblock : block m r) :
    M.asPartial.AcceptsFrom m w ↔ D.asPartial.AcceptsFrom r w := by
  induction w generalizing m r with
  | nil =>
    rw [PartialAutomaton.acceptsFrom_nil, PartialAutomaton.acceptsFrom_nil]
    show M.isAccept m = true ↔ D.isAccept r = true
    rw [h.isAccept_eq m r hblock]
  | cons c w ih =>
    have hnext := h.next?_spec m r c hblock
    rw [acceptsFrom_cons, acceptsFrom_cons]
    cases hm : M.next? m c with
    | some m' =>
      rw [hm] at hnext
      rw [rowNext_of_some hm]
      exact ih hnext.1
    | none =>
      rw [hm] at hnext
      rw [rowNext_of_none hm, hnext w]
      exact iff_of_false not_acceptsFrom_dead not_acceptsFrom_dead

theorem sameLanguage : SameLanguage D M := by
  intro w
  unfold PartialAutomaton.Accepts
  rw [show M.asPartial.start = 0 from h.start_eq]
  exact (h.acceptsFrom_iff h.start_mem).symm

theorem wellFormed (hD : D.WellFormed) : M.WellFormed := by
  have hnext : ∀ {p c q}, M.Edge p c q → q < M.size ∧ c ∈ M.alphabet := by
    intro p c q he
    obtain ⟨r, hr⟩ := h.nonempty p (lt_size_of_edge he)
    have hspec := h.next?_spec p r c hr
    rw [edge_iff.1 he] at hspec
    refine ⟨h.lt_size _ _ hspec.1, ?_⟩
    rw [h.alphabet_eq]
    by_contra hc
    refine hspec.2 ?_
    rw [rowNext_of_not_mem hD.edgesWithin hc]
    exact fun _ => Iff.rfl
  refine ⟨?_, fun he => (hnext he).1, fun he => (hnext he).2⟩
  rw [h.start_eq]
  exact h.lt_size _ _ h.start_mem

theorem reduced : M.Reduced := by
  intro p hp q hq hsame
  obtain ⟨r, hr⟩ := h.nonempty p hp
  obtain ⟨s, hs⟩ := h.nonempty q hq
  have hrows : D.SameWords r s := fun w => by
    rw [← h.acceptsFrom_iff hr, ← h.acceptsFrom_iff hs]
    exact hsame w
  exact h.inj p q s ((h.mem_iff p r s hr).2 ⟨h.le_size q s hs, hrows⟩) hs

/-- Where a word leads, it leads to the block of the state it led to, unless that is dead. -/
theorem run_spec (hblock : block m r) (hrun : D.asPartial.run? r w = some q) :
    match M.asPartial.run? m w with
    | some m' => block m' q
    | none => D.SameWords q D.size := by
  induction w generalizing m r with
  | nil =>
    obtain rfl : r = q := Option.some.inj hrun
    exact hblock
  | cons c w ih =>
    obtain ⟨r', hr', hrun⟩ := Option.bind_eq_some_iff.1 hrun
    have hspec := h.next?_spec m r c hblock
    rw [rowNext_of_some hr'] at hspec
    rw [PartialAutomaton.run?_cons]
    show match (M.next? m c).bind fun m' => M.asPartial.run? m' w with
      | some m' => block m' q
      | none => D.SameWords q D.size
    cases hm : M.next? m c with
    | some m' =>
      rw [hm] at hspec
      exact ih hspec.1 hrun
    | none =>
      rw [hm] at hspec
      exact hspec.dead_of_run hrun

/-- Only dead states are lost. -/
theorem exists_run_of_live (hblock : block m r) (hrun : D.asPartial.run? r w = some q)
    (hlive : ∃ v, D.asPartial.AcceptsFrom q v) :
    ∃ m', M.asPartial.run? m w = some m' ∧ block m' q := by
  have hspec := h.run_spec hblock hrun
  cases hM : M.asPartial.run? m w with
  | some m' =>
    rw [hM] at hspec
    exact ⟨m', rfl, hspec⟩
  | none =>
    rw [hM] at hspec
    obtain ⟨v, hv⟩ := hlive
    exact absurd ((hspec v).1 hv) not_acceptsFrom_dead

theorem exists_run (hblock : block m r) (hrun : M.asPartial.run? m w = some m') :
    ∃ q, D.asPartial.run? r w = some q ∧ block m' q := by
  induction w generalizing m r with
  | nil =>
    obtain rfl : m = m' := Option.some.inj hrun
    exact ⟨r, rfl, hblock⟩
  | cons c w ih =>
    obtain ⟨m₁, hm₁, hrun⟩ := Option.bind_eq_some_iff.1 hrun
    have hspec := h.next?_spec m r c hblock
    rw [show M.next? m c = some m₁ from hm₁] at hspec
    cases hnext : D.next? r c with
    | none =>
      rw [rowNext_of_none hnext] at hspec
      exact absurd (fun _ => Iff.rfl) hspec.2
    | some r' =>
      rw [rowNext_of_some hnext] at hspec
      obtain ⟨q, hq, hblock'⟩ := ih hspec.1 hrun
      refine ⟨q, ?_, hblock'⟩
      rw [PartialAutomaton.run?_cons]
      show (D.next? r c).bind _ = _
      rw [hnext]
      exact hq

/-! ## Quotients of trim automata -/

theorem exists_state (hD : D.WellFormed) (hm : m < M.size) : ∃ q < D.size, block m q := by
  obtain ⟨r, hr⟩ := h.nonempty m hm
  by_cases hdead : D.SameWords r D.size
  · obtain rfl := h.dead m r hr hdead
    exact ⟨D.start, hD.start_lt, h.start_mem⟩
  · refine ⟨r, Nat.lt_of_le_of_ne (h.le_size m r hr) ?_, hr⟩
    rintro rfl
    exact hdead fun _ => Iff.rfl

theorem run_eq_some (hD : Trim D) (hrun : D.asPartial.run? D.start w = some q) (hblock : block m q) :
    M.asPartial.run? M.start w = some m := by
  obtain ⟨m', hm', hblock'⟩ := h.exists_run_of_live h.start_mem hrun (hD.live q (hD.run_lt hrun))
  rw [h.start_eq, hm', h.inj m' m q hblock' hblock]

theorem trim (hD : Trim D) : Trim M := by
  refine ⟨h.wellFormed hD.wellFormed, fun m hm => ?_, fun m hm => ?_, fun c hc => ?_⟩
  · obtain ⟨q, hq, hblock⟩ := h.exists_state hD.wellFormed hm
    obtain ⟨w, hw⟩ := hD.reach q hq
    exact ⟨w, h.run_eq_some hD hw hblock⟩
  · obtain ⟨q, hq, hblock⟩ := h.exists_state hD.wellFormed hm
    obtain ⟨w, hw⟩ := hD.live q hq
    exact ⟨w, (h.acceptsFrom_iff hblock).2 hw⟩
  · rw [h.alphabet_eq] at hc
    obtain ⟨v, w, haccept⟩ := hD.used c hc
    exact ⟨v, w, (h.sameLanguage _).1 haccept⟩

/-- **Order.** The new numbers keep the order in which words lead to states. -/
theorem ranked (hD : Trim D) (hranked : D.Ranked) : M.Ranked := by
  intro i j w hij hw
  have hw₀ := hw
  rw [h.start_eq] at hw₀
  obtain ⟨q, hq, hblock⟩ := h.exists_run h.start_mem hw₀
  by_cases hi : i = 0
  · refine ⟨[], .of_nil ?_, by rw [h.start_eq, hi]; rfl⟩
    rintro rfl
    obtain rfl : 0 = j := Option.some.inj hw₀
    exact absurd hij (Nat.not_lt_zero i)
  · obtain ⟨r, hr, hleast⟩ := h.least i j (Nat.pos_of_ne_zero hi) hij (h.lt_size j q hblock)
    obtain ⟨v, hv, hrun⟩ := hranked r q w (hleast q hblock) hq
    exact ⟨v, hv, h.run_eq_some hD hrun hr⟩

theorem canonical (hD : Trim D) (hranked : D.Ranked) : Canonical M where
  toTrim := h.trim hD
  reduced := h.reduced
  ranked := h.ranked hD hranked

end IsQuotient

/-! ## Recorded states -/

/-- `M` accepts the words of `D`, and each of its states records states of `D` that it stands for. -/
structure Merges (D M : Dfa) : Prop where
  accepts_eq : ∀ w, ∃ b, M.accepts w = .ok b ∧ D.accepts w = .ok b
  nonempty : ∀ {m s}, M.state m = .ok s → ∃ q, q ∈ s.subset
  lt_size : ∀ {m s q}, M.state m = .ok s → q ∈ s.subset → q < D.size
  /-- No state is recorded twice. -/
  inj : ∀ {m m' s s' q}, M.state m = .ok s → M.state m' = .ok s' → q ∈ s.subset → q ∈ s'.subset →
    m = m'
  acceptsFrom_iff : ∀ {m s q r}, M.state m = .ok s → q ∈ s.subset → r ∈ s.subset →
    ∀ w, D.AcceptsFrom q w ↔ D.AcceptsFrom r w
  /-- Where a word leads `M`, it leads `D` to a state that is recorded there. -/
  exists_run : ∀ {w m}, M.run M.start w = .ok (some m) →
    ∃ q s, D.run D.start w = .ok (some q) ∧ M.state m = .ok s ∧ q ∈ s.subset
  /-- Words that can go on to be accepted lead `M` somewhere. -/
  run_of_live : ∀ {w q}, D.run D.start w = .ok (some q) → (∃ v, D.AcceptsFrom q v) →
    ∃ m, M.run M.start w = .ok (some m)

namespace IsQuotient

variable (h : IsQuotient D M block)

include h

/-- The recorded states are those of the block, the dead row apart. -/
theorem mem_subset_iff {s : DfaState} (hs : M.state m = .ok s) :
    q ∈ s.subset ↔ q < D.size ∧ block m q :=
  h.subset_iff m s (state_eq_ok.1 hs) q

theorem merges (hD : D.WellFormed) : Merges D M := by
  have hM := h.wellFormed hD
  constructor
  case accepts_eq =>
    intro w
    exact (accepts_returns hM w).exists_of_iff (accepts_returns hD w) (h.sameLanguage w).symm
  case nonempty =>
    intro m s hs
    have hm : m < M.size := (Array.getElem?_eq_some_iff.1 (state_eq_ok.1 hs)).1
    obtain ⟨q, hq⟩ := h.exists_state hD hm
    exact ⟨q, (h.mem_subset_iff hs).2 hq⟩
  case lt_size => exact fun hs hq => ((h.mem_subset_iff hs).1 hq).1
  case inj =>
    intro m m' s s' q hs hs' hq hq'
    exact h.inj m m' q ((h.mem_subset_iff hs).1 hq).2 ((h.mem_subset_iff hs').1 hq').2
  case acceptsFrom_iff =>
    intro m s q r hs hq hr w
    obtain ⟨hq, hblock⟩ := (h.mem_subset_iff hs).1 hq
    obtain ⟨hr, hblock'⟩ := (h.mem_subset_iff hs).1 hr
    rw [Dfa.acceptsFrom_iff hD hq, Dfa.acceptsFrom_iff hD hr]
    exact ((h.mem_iff m q r hblock).1 hblock').2 w
  case exists_run =>
    intro w m hw
    rw [run_eq hM hM.start_lt, Except.ok.injEq] at hw
    have hm := run_lt hM hM.start_lt hw
    rw [h.start_eq] at hw
    obtain ⟨q, hq, hblock⟩ := h.exists_run h.start_mem hw
    have hs : M.state m = .ok M.states[m] := state_eq_ok.2 (Array.getElem?_eq_getElem hm)
    refine ⟨q, M.states[m], ?_, hs, (h.mem_subset_iff hs).2 ⟨run_lt hD hD.start_lt hq, hblock⟩⟩
    rw [run_eq hD hD.start_lt, hq]
  case run_of_live =>
    rintro w q hw ⟨v, hv⟩
    rw [run_eq hD hD.start_lt, Except.ok.injEq] at hw
    rw [Dfa.acceptsFrom_iff hD (run_lt hD hD.start_lt hw)] at hv
    obtain ⟨m, hm, _⟩ := h.exists_run_of_live h.start_mem hw ⟨v, hv⟩
    refine ⟨m, ?_⟩
    rw [run_eq hM hM.start_lt, h.start_eq, hm]

end IsQuotient

/-- **Recorded states.** Merging keeps the language, and each state records which states of the
automaton it stands for: none twice, only such as accept the same words, and on every run the one
that the run leads to. Nothing but runs that cannot be accepted is lost. -/
theorem minimal_merges (hD : D.WellFormed) : ∃ M, D.minimal = .ok M ∧ Merges D M := by
  obtain ⟨M, hM, block, h⟩ := minimal_returns hD
  exact ⟨M, hM, h.merges hD⟩

/-- States 1 and 2 accept the same words, as 3 and 5 do. State 4 is a trap, 5 cannot be reached, and
no edge reads `c`. -/
def mergeable : Dfa where
  states := #[
    ⟨.singleton 0, .ofList [('a', 1), ('b', 2)], false⟩,
    ⟨.singleton 1, .ofList [('a', 3)], false⟩,
    ⟨.singleton 2, .ofList [('a', 3), ('b', 4)], false⟩,
    ⟨.singleton 3, .ofList [('b', 4)], true⟩,
    ⟨.singleton 4, .ofList [('a', 4)], false⟩,
    ⟨.singleton 5, .empty, true⟩]
  start := 0
  alphabet := .ofList ['a', 'b', 'c']

theorem minimal_merges_mergeable :
    mergeable.WellFormed ∧ ∃ M, mergeable.minimal = .ok M ∧ Merges mergeable M := by
  have h : mergeable.WellFormed := by decide
  exact ⟨h, minimal_merges h⟩

end FiniteAutomata.Dfa
