import FiniteAutomata.Proofs.Dfa.Partition
import FiniteAutomata.Proofs.Dfa.Run
/-!
# Rows and the words they accept

The rows of a table are the states and one dead row, which stands for a missing target
(`Dfa.rowNext`). Rows agree up to `k` steps if they accept the same words of length at most `k`
(`sameUpTo_iff`), so the stable partition has rows together that accept the same words
(`stablePartition_ofDfa_returns`).
-/

namespace FiniteAutomata.Dfa

variable {dfa : Dfa} {p : Partition} {r s : Nat} {c : Char} {w : List Char} {k : Nat}

/-- The row that a row leads to; the dead row if a target is missing. -/
def rowNext (dfa : Dfa) (r : Row) (c : Char) : Row := (dfa.next? r c).getD dfa.size

theorem rowNext_of_some {q : Nat} (h : dfa.next? r c = some q) : dfa.rowNext r c = q := by
  unfold rowNext
  rw [h]
  rfl

theorem rowNext_of_none (h : dfa.next? r c = none) : dfa.rowNext r c = dfa.size := by
  unfold rowNext
  rw [h]
  rfl

/-- The rows accept the same words. -/
def SameWords (dfa : Dfa) (r s : Row) : Prop :=
  ∀ w, dfa.asPartial.AcceptsFrom r w ↔ dfa.asPartial.AcceptsFrom s w

theorem SameWords.symm (h : dfa.SameWords r s) : dfa.SameWords s r := fun w => (h w).symm

theorem SameWords.trans {u : Nat} (h : dfa.SameWords r s) (h' : dfa.SameWords s u) :
    dfa.SameWords r u := fun w => (h w).trans (h' w)

/-! ## The dead row -/

theorem next?_of_size_le (hr : dfa.size ≤ r) : dfa.next? r c = none := by
  unfold next?
  rw [show dfa.states[r]? = none from Array.getElem?_eq_none hr]
  rfl

@[simp] theorem rowNext_dead : dfa.rowNext dfa.size c = dfa.size :=
  rowNext_of_none (next?_of_size_le (Nat.le_refl _))

theorem not_acceptsFrom_dead : ¬ dfa.asPartial.AcceptsFrom dfa.size w := by
  rintro ⟨q, hq, hrun⟩
  cases w with
  | nil =>
    obtain rfl : dfa.size = q := Option.some.inj hrun
    have hfalse := isAccept_of_size_le (Nat.le_refl dfa.size)
    rw [show dfa.isAccept dfa.size = true from hq] at hfalse
    cases hfalse
  | cons c w =>
    rw [PartialAutomaton.run?_cons, show dfa.asPartial.next? dfa.size c = none from
      next?_of_size_le (Nat.le_refl _)] at hrun
    cases hrun

theorem sameWords_dead_iff :
    dfa.SameWords r dfa.size ↔ ∀ w, ¬ dfa.asPartial.AcceptsFrom r w :=
  forall_congr' fun _ => iff_false_right not_acceptsFrom_dead

theorem acceptsFrom_cons :
    dfa.asPartial.AcceptsFrom r (c :: w) ↔ dfa.asPartial.AcceptsFrom (dfa.rowNext r c) w := by
  have hrun : dfa.asPartial.run? r (c :: w) =
      (dfa.next? r c).bind fun q => dfa.asPartial.run? q w := rfl
  cases hnext : dfa.next? r c with
  | some q =>
    unfold PartialAutomaton.AcceptsFrom
    rw [hrun, hnext, rowNext_of_some hnext]
    rfl
  | none =>
    rw [rowNext_of_none hnext, iff_false_right not_acceptsFrom_dead]
    rintro ⟨q, _, hq⟩
    rw [hrun, hnext] at hq
    cases hq

theorem SameWords.rowNext (h : dfa.SameWords r s) (c : Char) :
    dfa.SameWords (dfa.rowNext r c) (dfa.rowNext s c) := by
  intro w
  rw [← acceptsFrom_cons, ← acceptsFrom_cons]
  exact h (c :: w)

theorem SameWords.isAccept_eq (h : dfa.SameWords r s) : dfa.isAccept r = dfa.isAccept s := by
  have hnil := h []
  rw [PartialAutomaton.acceptsFrom_nil, PartialAutomaton.acceptsFrom_nil] at hnil
  exact Bool.eq_iff_iff.2 hnil

theorem rowNext_of_not_mem (hdfa : dfa.EdgesWithin) (hc : c ∉ dfa.alphabet) :
    dfa.rowNext r c = dfa.size := by
  cases hnext : dfa.next? r c with
  | none => exact rowNext_of_none hnext
  | some q => exact absurd (hdfa.edge_mem (edge_iff.2 hnext)) hc

theorem rowNext_le (hdfa : dfa.EdgesWithin) : dfa.rowNext r c ≤ dfa.size := by
  cases hnext : dfa.next? r c with
  | none => rw [rowNext_of_none hnext]
  | some q =>
    rw [rowNext_of_some hnext]
    exact Nat.le_of_lt (hdfa.edge_lt (edge_iff.2 hnext))

/-! ## The table -/

@[simp] theorem size_ofDfa (dfa : Dfa) : (TransitionTable.ofDfa dfa).size = dfa.size + 1 := by
  simp [TransitionTable.ofDfa, TransitionTable.size, size]

theorem targetsOf_ofDfa (hr : r ≤ dfa.size) :
    (TransitionTable.ofDfa dfa).targetsOf r = dfa.alphabet.toList.map (dfa.rowNext r) := by
  unfold TransitionTable.targetsOf TransitionTable.ofDfa rowNext next?
  dsimp only
  rw [Array.getElem?_push, Array.size_map, Array.getElem?_map]
  by_cases hlt : r = dfa.states.size
  · subst hlt
    rw [if_pos rfl, Array.getElem?_size]
    rfl
  · have hlt : r < dfa.states.size := Nat.lt_of_le_of_ne hr hlt
    rw [if_neg (Nat.ne_of_lt hlt), Array.getElem?_eq_getElem hlt]
    rfl

theorem isAccept_ofDfa : (TransitionTable.ofDfa dfa).isAccept r = dfa.isAccept r := by
  unfold TransitionTable.isAccept TransitionTable.ofDfa isAccept
  dsimp only
  rw [Array.getElem?_push, Array.size_map, Array.getElem?_map]
  by_cases hr : r = dfa.states.size
  · subst hr
    rw [if_pos rfl, Array.getElem?_size]
    rfl
  · rw [if_neg hr]

theorem closed_ofDfa (hdfa : dfa.EdgesWithin) : (TransitionTable.ofDfa dfa).Closed := by
  intro r hr x hx
  rw [size_ofDfa] at hr ⊢
  rw [targetsOf_ofDfa (Nat.le_of_lt_succ hr)] at hx
  obtain ⟨c, _, rfl⟩ := List.mem_map.1 hx
  exact Nat.lt_succ_of_le (rowNext_le hdfa)

/-- **Words.** Rows agree up to `k` steps if they accept the same words of length at most `k`. -/
theorem sameUpTo_iff (hdfa : dfa.EdgesWithin) (hr : r ≤ dfa.size) (hs : s ≤ dfa.size) :
    (TransitionTable.ofDfa dfa).SameUpTo k r s ↔
      ∀ w : List Char, w.length ≤ k → (dfa.asPartial.AcceptsFrom r w ↔ dfa.asPartial.AcceptsFrom s w) := by
  induction k generalizing r s with
  | zero =>
    show (TransitionTable.ofDfa dfa).isAccept r = (TransitionTable.ofDfa dfa).isAccept s ↔ _
    rw [isAccept_ofDfa, isAccept_ofDfa, Bool.eq_iff_iff]
    constructor
    · intro h w hw
      obtain rfl := List.eq_nil_of_length_eq_zero (Nat.le_zero.1 hw)
      rw [PartialAutomaton.acceptsFrom_nil, PartialAutomaton.acceptsFrom_nil]
      exact h
    · intro h
      have hnil := h [] (Nat.le_refl 0)
      rwa [PartialAutomaton.acceptsFrom_nil, PartialAutomaton.acceptsFrom_nil] at hnil
  | succ k ih =>
    have hforall : List.Forall₂ ((TransitionTable.ofDfa dfa).SameUpTo k)
        ((TransitionTable.ofDfa dfa).targetsOf r) ((TransitionTable.ofDfa dfa).targetsOf s) ↔
        ∀ c ∈ dfa.alphabet, (TransitionTable.ofDfa dfa).SameUpTo k (dfa.rowNext r c) (dfa.rowNext s c) := by
      rw [targetsOf_ofDfa hr, targetsOf_ofDfa hs, List.forall₂_map_left_iff,
        List.forall₂_map_right_iff, List.forall₂_same]
      rfl
    show (TransitionTable.ofDfa dfa).SameUpTo k r s ∧ _ ↔ _
    rw [hforall, ih hr hs]
    constructor
    · rintro ⟨hshort, hnext⟩ w hw
      cases w with
      | nil => exact hshort [] (Nat.zero_le k)
      | cons c w =>
        rw [acceptsFrom_cons, acceptsFrom_cons]
        by_cases hc : c ∈ dfa.alphabet
        · exact (ih (rowNext_le hdfa) (rowNext_le hdfa)).1 (hnext c hc) w (Nat.le_of_succ_le_succ hw)
        · rw [rowNext_of_not_mem hdfa hc, rowNext_of_not_mem hdfa hc]
    · intro h
      refine ⟨fun w hw => h w (Nat.le_succ_of_le hw), fun c _ => ?_⟩
      rw [ih (rowNext_le hdfa) (rowNext_le hdfa)]
      intro w hw
      rw [← acceptsFrom_cons, ← acceptsFrom_cons]
      exact h (c :: w) (Nat.succ_le_succ hw)

/-- **Stable partition.** Rows share a block if they accept the same words. -/
theorem stablePartition_ofDfa_returns (hdfa : dfa.EdgesWithin) :
    Returns (TransitionTable.ofDfa dfa).stablePartition fun p => Parts p (dfa.size + 1) dfa.SameWords := by
  have hpos : 0 < (TransitionTable.ofDfa dfa).size := by
    rw [size_ofDfa]
    exact Nat.succ_pos _
  refine ((TransitionTable.ofDfa dfa).stablePartition_returns (closed_ofDfa hdfa) hpos).mono fun p hp => ?_
  rw [size_ofDfa] at hp
  refine hp.congr fun r hr s hs => ?_
  simp only [sameUpTo_iff hdfa (Nat.le_of_lt_succ hr) (Nat.le_of_lt_succ hs)]
  exact ⟨fun h w => h w.length w (Nat.le_refl _), fun h _ w _ => h w⟩

end FiniteAutomata.Dfa
