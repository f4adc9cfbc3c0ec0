import FiniteAutomata.Ordered
/-!
# Sets of states

A state is known by its number in its automaton, and a `StateSet` lists numbers in ascending order.
Two sets with the same members are the same set, so a set can serve as the name of a state of
another automaton.
-/

namespace FiniteAutomata

/-- The number of a state in its automaton. The numbers do not wrap: an automaton is taken to have fewer
than `2 ^ 32` states, as many as 32 bits can tell apart. -/
abbrev StateId := Nat

/-- A set of states, least first. -/
abbrev StateSet := Ordered (fun id : StateId => id)

namespace StateSet

theorem mem_insert {s : StateSet} {id x : StateId} : x ∈ s.insert id ↔ x = id ∨ x ∈ s := by
  rw [Ordered.mem_insert]
  grind

theorem mem_insertAll {s : StateSet} {l : List StateId} {x : StateId} :
    x ∈ s.insertAll l ↔ x ∈ s ∨ x ∈ l :=
  Ordered.mem_insertAll fun _ _ h => h

theorem mem_ofList {l : List StateId} {x : StateId} : x ∈ (Ordered.ofList l : StateSet) ↔ x ∈ l :=
  Ordered.mem_ofList fun _ _ h => h

theorem mem_union {s t : StateSet} {x : StateId} : x ∈ s.union t ↔ x ∈ s ∨ x ∈ t :=
  Ordered.mem_union fun _ _ h => h

/-- `s` with `id` in it, and whether `id` is new to it. -/
def add (s : StateSet) (id : StateId) : StateSet × Bool := (s.insert id, !decide (id ∈ s))

theorem mem_add {s : StateSet} {id x : StateId} : x ∈ (s.add id).1 ↔ x = id ∨ x ∈ s := mem_insert

theorem add_isNew_iff {s : StateSet} {id : StateId} : (s.add id).2 = true ↔ id ∉ s := by
  unfold add
  rw [Bool.not_eq_true', decide_eq_false_iff_not]

/-- Whether two sets share a state; the smaller one is walked through. -/
def intersects (s t : StateSet) : Bool :=
  if s.size ≤ t.size then s.toList.any (· ∈ t) else t.toList.any (· ∈ s)

theorem intersects_iff {s t : StateSet} : s.intersects t = true ↔ ∃ id, id ∈ s ∧ id ∈ t := by
  unfold intersects
  split
  · simp [Ordered.mem_toList]
  · simp only [List.any_eq_true, decide_eq_true_eq, Ordered.mem_toList]
    exact ⟨fun ⟨id, ht, hs⟩ => ⟨id, hs, ht⟩, fun ⟨id, hs, ht⟩ => ⟨id, ht, hs⟩⟩

theorem intersects_comm (s t : StateSet) : s.intersects t = t.intersects s := by
  rw [Bool.eq_iff_iff, intersects_iff, intersects_iff]
  exact exists_congr fun _ => and_comm

/-! ## Order -/

/-- Lexicographic order of lists of states; a list comes before its continuations. -/
def compareLists : List StateId → List StateId → Ordering
  | [], [] => .eq
  | [], _ :: _ => .lt
  | _ :: _, [] => .gt
  | a :: l, b :: m => if a < b then .lt else if b < a then .gt else compareLists l m

/-- Lexicographic order of the ascending members. -/
def compare (s t : StateSet) : Ordering := compareLists s.toList t.toList

/-! ## Text -/

/-- Members between braces, `separator` between them. -/
def listed (separator : String) (s : StateSet) : String :=
  "\x7b" ++ separator.intercalate (s.toList.map Nat.repr) ++ "\x7d"

/-- The set as automata are printed with it: commas and no blanks. -/
def text (s : StateSet) : String := s.listed ","

/-- The set as a value of a report: a blank after each comma. -/
def spacedText (s : StateSet) : String := s.listed ", "

end StateSet

end FiniteAutomata
