import FiniteAutomata.Proofs.Dfa.Table
import FiniteAutomata.Proofs.Transitions
/-!
# Passes and the words that tell rows apart

The passes over the table of an automaton need edges that stay within its states and its alphabet
(`EdgesWithin`), but no start. What they part is told by the words over the alphabet: after `k` passes
rows share a block if they accept the same words of length at most `k` (`after_ofDfa_returns`), and with
`n` states there are at most `n + 1` passes (`passes_ofDfa`).
-/

namespace FiniteAutomata.Dfa

variable {dfa : Dfa} {r s : Row} {c : Char} {w : List Char} {k : Nat}

/-- The row is a state, and the word leads from it to an accepting one. The dead row accepts nothing. -/
def RowAccepts (dfa : Dfa) (r : Row) (w : List Char) : Prop := r < dfa.size ∧ dfa.AcceptsFrom r w

/-- The rows accept the same words over the alphabet of length at most `k`. -/
def SameUpToLength (dfa : Dfa) (k : Nat) (r s : Row) : Prop :=
  ∀ w : List Char, (∀ c ∈ w, c ∈ dfa.alphabet) → w.length ≤ k →
    (dfa.RowAccepts r w ↔ dfa.RowAccepts s w)

theorem rowAccepts_iff (hr : r ≤ dfa.size) : dfa.RowAccepts r w ↔ dfa.asPartial.AcceptsFrom r w := by
  unfold RowAccepts
  rw [acceptsFrom_iff_asPartial]
  rcases Nat.lt_or_eq_of_le hr with hlt | rfl
  · exact and_iff_right hlt
  · exact iff_of_false (fun h => Nat.lt_irrefl _ h.1) not_acceptsFrom_dead

theorem mem_alphabet_of_acceptsFrom (hdfa : dfa.EdgesWithin) (h : dfa.asPartial.AcceptsFrom r w) :
    ∀ c ∈ w, c ∈ dfa.alphabet := by
  induction w generalizing r with
  | nil => exact fun _ hc => absurd hc List.not_mem_nil
  | cons c w ih =>
    rw [acceptsFrom_cons] at h
    refine List.forall_mem_cons.2 ⟨?_, ih h⟩
    by_contra hc
    rw [rowNext_of_not_mem hdfa hc] at h
    exact not_acceptsFrom_dead h

/-- Rows agree up to `k` steps if words over the alphabet of length at most `k` do not tell them apart:
no other words are accepted. -/
theorem sameUpTo_iff_sameUpToLength (hdfa : dfa.EdgesWithin) (hr : r ≤ dfa.size) (hs : s ≤ dfa.size) :
    (TransitionTable.ofDfa dfa).SameUpTo k r s ↔ dfa.SameUpToLength k r s := by
  rw [sameUpTo_iff hdfa hr hs]
  unfold SameUpToLength
  simp only [rowAccepts_iff hr, rowAccepts_iff hs]
  refine forall_congr' fun w => ⟨fun h _ => h, fun h hk => ?_⟩
  by_cases hw : ∀ c ∈ w, c ∈ dfa.alphabet
  · exact h hw hk
  · exact iff_of_false (fun hr => hw (mem_alphabet_of_acceptsFrom hdfa hr))
      (fun hs => hw (mem_alphabet_of_acceptsFrom hdfa hs))

/-- **Invariant.** After `k` passes rows share a block if they accept the same words of length at most
`k`. -/
theorem after_ofDfa_returns (hdfa : dfa.EdgesWithin) (k : Nat) :
    Returns ((TransitionTable.ofDfa dfa).after k) fun p =>
      Parts p (dfa.size + 1) (dfa.SameUpToLength k) := by
  refine (TransitionTable.after_returns (closed_ofDfa hdfa) k).mono fun p hp => ?_
  rw [size_ofDfa] at hp
  exact hp.congr fun r hr s hs =>
    sameUpTo_iff_sameUpToLength hdfa (Nat.le_of_lt_succ hr) (Nat.le_of_lt_succ hs)

/-- **Refinement.** For all `k`, the partition after `k` passes is one of the states and the dead row
into non-empty ascending blocks, and rows share a block exactly if they accept the same words of length
at most `k`. There are no more passes than rows, and the last of them leaves rows together exactly if
they accept the same words. -/
theorem passes_ofDfa (hdfa : dfa.EdgesWithin) :
    (∀ k, ∃ p, (TransitionTable.ofDfa dfa).after k = .ok p ∧
      Parts p (dfa.size + 1) (dfa.SameUpToLength k)) ∧
    ∃ passes last, (TransitionTable.ofDfa dfa).passes = .ok passes ∧
      passes.length ≤ dfa.size + 1 ∧
      (∀ i q, passes[i]? = some q → (TransitionTable.ofDfa dfa).after (i + 1) = .ok q) ∧
      passes.getLast? = some last ∧ (TransitionTable.ofDfa dfa).stablePartition = .ok last ∧
      Parts last (dfa.size + 1) fun r s => ∀ k, dfa.SameUpToLength k r s := by
  refine ⟨after_ofDfa_returns hdfa, ?_⟩
  have hpos : 0 < (TransitionTable.ofDfa dfa).size := by
    rw [size_ofDfa]
    exact Nat.succ_pos _
  obtain ⟨passes, hpasses, last, h⟩ := TransitionTable.passes_returns (closed_ofDfa hdfa) hpos
  have hparts := h.parts
  rw [size_ofDfa] at hparts
  have hinitial : 0 < (TransitionTable.ofDfa dfa).initialPartition.length :=
    Nat.lt_of_le_of_lt (Nat.zero_le _) ((TransitionTable.parts_initial _).number_lt hpos)
  have hbound : passes.length ≤ dfa.size + 1 := by
    have := h.grows
    have := hparts.length_le
    omega
  refine ⟨passes, last, hpasses, hbound, fun i q hq => ?_, h.getLast_eq,
    TransitionTable.stablePartition_eq hpasses h.getLast_eq, hparts.congr fun r hr s hs => ?_⟩
  · rw [← Nat.zero_add i]
    exact h.after_eq hq
  · exact forall_congr' fun _ =>
      sameUpTo_iff_sameUpToLength hdfa (Nat.le_of_lt_succ hr) (Nat.le_of_lt_succ hs)

/-- Each pass tells one more state from the dead row. There is no start. -/
def staged : Dfa where
  states := #[
    ⟨.singleton 0, .ofList [('a', 1)], false⟩,
    ⟨.singleton 1, .ofList [('a', 2)], false⟩,
    ⟨.singleton 2, Ordered.empty, true⟩]
  start := 3
  alphabet := .ofList ['a']

/-- States on a line. -/
theorem passes_ofDfa_staged :
    staged.EdgesWithin ∧
    (∀ k, ∃ p, (TransitionTable.ofDfa staged).after k = .ok p ∧
      Parts p 4 (staged.SameUpToLength k)) ∧
    ∃ passes last, (TransitionTable.ofDfa staged).passes = .ok passes ∧ passes.length ≤ 4 ∧
      (∀ i q, passes[i]? = some q → (TransitionTable.ofDfa staged).after (i + 1) = .ok q) ∧
      passes.getLast? = some last ∧ (TransitionTable.ofDfa staged).stablePartition = .ok last ∧
      Parts last 4 fun r s => ∀ k, staged.SameUpToLength k r s := by
  have h : staged.EdgesWithin := by decide
  exact ⟨h, passes_ofDfa h⟩

end FiniteAutomata.Dfa
