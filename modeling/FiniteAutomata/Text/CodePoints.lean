/-!
# Sets of code points

A property of characters is given by the closed ranges of code points that have it, in ascending
order. Reading stops at the first range that begins above the code point asked for, which is right
because the ranges do not overlap: `contains_iff`.
-/

namespace FiniteAutomata

/-- Whether ranges ascend without overlap, none being empty. -/
def ascendingRanges : List (Nat × Nat) → Bool
  | [] => true
  | [(lo, hi)] => lo ≤ hi
  | (lo, hi) :: (lo', hi') :: rest => lo ≤ hi && hi < lo' && ascendingRanges ((lo', hi') :: rest)

/-- A set of code points. -/
structure CodePoints where
  /-- First and last code point of each range. -/
  ranges : List (Nat × Nat)
  /-- The ranges ascend without overlap. -/
  ascending : ascendingRanges ranges = true

namespace CodePoints

/-- Whether some range of an ascending list holds `n`. -/
def search (n : Nat) : List (Nat × Nat) → Bool
  | [] => false
  | (lo, hi) :: rest => if n < lo then false else n ≤ hi || search n rest

/-- Whether the set holds `c`. -/
def contains (s : CodePoints) (c : Char) : Bool := search c.toNat s.ranges

theorem lt_of_ascending {lo hi : Nat} {rest : List (Nat × Nat)}
    (h : ascendingRanges ((lo, hi) :: rest) = true) {r : Nat × Nat} (hr : r ∈ rest) : lo < r.1 := by
  induction rest generalizing lo hi with
  | nil => cases hr
  | cons next rest ih =>
    obtain ⟨lo', hi'⟩ := next
    simp only [ascendingRanges, Bool.and_eq_true, decide_eq_true_eq] at h
    obtain ⟨⟨h₁, h₂⟩, h₃⟩ := h
    rcases List.mem_cons.1 hr with rfl | hr
    · exact Nat.lt_of_le_of_lt h₁ h₂
    · exact Nat.lt_trans (Nat.lt_of_le_of_lt h₁ h₂) (ih h₃ hr)

theorem ascending_tail {r : Nat × Nat} {rest : List (Nat × Nat)}
    (h : ascendingRanges (r :: rest) = true) : ascendingRanges rest = true := by
  cases rest with
  | nil => rfl
  | cons next rest =>
    simp only [ascendingRanges, Bool.and_eq_true] at h
    exact h.2

theorem search_iff {n : Nat} {l : List (Nat × Nat)} (h : ascendingRanges l = true) :
    search n l = true ↔ ∃ r ∈ l, r.1 ≤ n ∧ n ≤ r.2 := by
  induction l with
  | nil => simp [search]
  | cons range rest ih =>
    obtain ⟨lo, hi⟩ := range
    have above := fun r (hr : r ∈ rest) => lt_of_ascending h hr
    have := ih (ascending_tail h)
    unfold search
    split
    · simp only [Bool.false_eq_true, false_iff, List.mem_cons, not_exists, not_and]
      rintro r (rfl | hr)
      · omega
      · have := above r hr
        omega
    · rename_i hlo
      simp only [Bool.or_eq_true, decide_eq_true_eq, this]
      constructor
      · rintro (hhi | ⟨r, hr, hlo, hhi⟩)
        · exact ⟨(lo, hi), List.mem_cons_self, Nat.not_lt.1 hlo, hhi⟩
        · exact ⟨r, List.mem_cons_of_mem _ hr, hlo, hhi⟩
      · rintro ⟨r, hr, hlo, hhi⟩
        rcases List.mem_cons.1 hr with rfl | hr
        · exact Or.inl hhi
        · exact Or.inr ⟨r, hr, hlo, hhi⟩

theorem contains_iff {s : CodePoints} {c : Char} :
    s.contains c = true ↔ ∃ r ∈ s.ranges, r.1 ≤ c.toNat ∧ c.toNat ≤ r.2 :=
  search_iff s.ascending

end CodePoints

end FiniteAutomata
