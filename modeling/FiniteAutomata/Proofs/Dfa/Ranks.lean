import FiniteAutomata.Proofs.Dfa.Canonical
/-!
# First words of states

Among the words that lead from the start to a state there is a first one (`Trim.exists_isFirst`). In an
automaton that is `Ranked`, the numbers of its states are in the order of these words, and that of the
start is `0` (`Trim.numbered`).
-/

namespace FiniteAutomata

instance : IsWellOrder (List Char) Earlier where
  toIsWellFounded := ⟨Earlier.wellFounded⟩
  toTrichotomous := List.Shortlex.trichotomous

namespace Dfa

variable {dfa : Dfa} {i j q : StateId} {v w : List Char}

/-- The word leads from the start to the state, and comes before all other words that do. -/
def IsFirst (dfa : Dfa) (q : StateId) (w : List Char) : Prop :=
  dfa.run dfa.start w = .ok (some q) ∧
    ∀ v, dfa.run dfa.start v = .ok (some q) → v ≠ w → Earlier w v

/-- Each state has a first word, and the numbers of the states are in the order of these. -/
structure Numbered (dfa : Dfa) : Prop where
  start_eq : dfa.start = 0
  exists_first : ∀ q < dfa.size, ∃! w, dfa.IsFirst q w
  lt_iff : ∀ {i j v w}, dfa.IsFirst i v → dfa.IsFirst j w → (i < j ↔ Earlier v w)

namespace IsFirst

theorem eq (hv : dfa.IsFirst q v) (hw : dfa.IsFirst q w) : v = w := by
  by_contra hne
  exact asymm_of Earlier (hv.2 w hw.1 (Ne.symm hne)) (hw.2 v hv.1 hne)

theorem earlier_of_run {u : List Char} (hv : dfa.IsFirst q v)
    (hu : dfa.run dfa.start u = .ok (some q)) (h : Earlier u w) : Earlier v w := by
  by_cases heq : u = v
  · exact heq ▸ h
  · exact trans_of Earlier (hv.2 u hu heq) h

end IsFirst

theorem Ranked.start_eq_zero (hranked : dfa.Ranked) : dfa.start = 0 := by
  by_contra hne
  obtain ⟨v, hv, _⟩ := hranked 0 dfa.start [] (Nat.pos_of_ne_zero hne) rfl
  exact List.not_shortlex_nil_right hv

theorem Ranked.earlier_of_lt (hranked : dfa.Ranked) (hv : dfa.IsFirst i v) (hw : dfa.IsFirst j w)
    (hij : i < j) : Earlier v w := by
  obtain ⟨u, hu, hrun⟩ := hranked i j w hij (run_eq_ok_some_iff.1 hw.1)
  exact hv.earlier_of_run (run_eq_ok_some_iff.2 hrun) hu

theorem Ranked.lt_iff_earlier (hranked : dfa.Ranked) (hv : dfa.IsFirst i v) (hw : dfa.IsFirst j w) :
    i < j ↔ Earlier v w := by
  refine ⟨hranked.earlier_of_lt hv hw, fun hvw => ?_⟩
  rcases Nat.lt_trichotomy i j with hlt | rfl | hgt
  · exact hlt
  · exact absurd (hv.eq hw ▸ hvw) (irrefl_of Earlier w)
  · exact absurd hvw (asymm_of Earlier (hranked.earlier_of_lt hw hv hgt))

theorem Trim.exists_isFirst (h : Trim dfa) (hq : q < dfa.size) : ∃ w, dfa.IsFirst q w := by
  obtain ⟨u, hu⟩ := h.reach q hq
  obtain ⟨w, hw, hleast⟩ :=
    Earlier.wellFounded.has_min {w | dfa.run dfa.start w = .ok (some q)} ⟨u, run_eq_ok_some_iff.2 hu⟩
  refine ⟨w, hw, fun v hv hne => ?_⟩
  rcases trichotomous_of Earlier w v with hlt | heq | hgt
  · exact hlt
  · exact absurd heq.symm hne
  · exact absurd hgt (hleast v hv)

/-- **Ranks.** The numbers of the states are in the order of their first words. -/
theorem Trim.numbered (h : Trim dfa) (hranked : dfa.Ranked) : Numbered dfa where
  start_eq := hranked.start_eq_zero
  exists_first q hq := by
    obtain ⟨w, hw⟩ := h.exists_isFirst hq
    exact ⟨w, hw, fun v hv => hv.eq hw⟩
  lt_iff := hranked.lt_iff_earlier

end Dfa

end FiniteAutomata
