import FiniteAutomata.Proofs.Dump.Unambiguous
import Mathlib.Data.List.Lex
import Mathlib.Logic.Function.Basic
import Mathlib.Order.Compare
/-!
# A set of states is known by its members

Sets are made and enlarged step by step, in any order and with repeats, and one out of another. Beside
each of them goes the list of the states that were put in since it was made, first to last and with
repeats. A step keeps the members of every set those of its list (`Step.holds_apply`), and that is all that
is left of the way a set came about: equality, the printed texts, the order and the test for a common
state read the members alone.

Main statement: `after_known_by_members`.
-/

namespace FiniteAutomata.StateSet

variable {s t u : StateSet} {l m : List StateId} {id : StateId}

/-! ## Members -/

/-- The members of a set are those of a list. -/
def Holds (s : StateSet) (l : List StateId) : Prop := ∀ x, x ∈ s ↔ x ∈ l

theorem holds_empty : Holds Ordered.empty [] := fun _ => Iff.rfl

theorem holds_singleton (id : StateId) : Holds (Ordered.singleton id) [id] := fun _ => Iff.rfl

theorem holds_ofList (l : List StateId) : Holds (Ordered.ofList l) l := fun _ => mem_ofList

namespace Holds

theorem insertAll (h : Holds s l) (m : List StateId) : Holds (s.insertAll m) (l ++ m) := fun x => by
  rw [mem_insertAll, List.mem_append, h x]

theorem add (h : Holds s l) (id : StateId) : Holds (s.add id).1 (l ++ [id]) := fun x => by
  rw [mem_add, List.mem_append, List.mem_singleton, h x, or_comm]

theorem union (h : Holds s l) (h' : Holds t m) : Holds (s.union t) (l ++ m) := fun x => by
  rw [mem_union, List.mem_append, h x, h' x]

theorem eq_iff (h : Holds s l) (h' : Holds t m) : s = t ↔ ∀ x, x ∈ l ↔ x ∈ m := by
  constructor
  · rintro rfl x
    rw [← h x, h' x]
  · intro hlm
    refine Ordered.ext_mem fun x => ?_
    rw [h x, h' x, hlm x]

theorem isNew_iff (h : Holds s l) : (s.add id).2 = true ↔ id ∉ l :=
  add_isNew_iff.trans (not_congr (h id))

theorem intersects_iff (h : Holds s l) (h' : Holds t m) :
    s.intersects t = true ↔ ∃ x, x ∈ l ∧ x ∈ m :=
  StateSet.intersects_iff.trans (exists_congr fun x => and_congr (h x) (h' x))

end Holds

/-! ## Texts -/

theorem text_eq_iff : s.text = t.text ↔ s = t := ⟨text_inj, congrArg text⟩

theorem spacedText_eq_iff : s.spacedText = t.spacedText ↔ s = t := by
  have hcomma : (", ").toList = ',' :: [' '] := rfl
  exact ⟨listed_inj hcomma, congrArg spacedText⟩

/-! ## Order -/

/-- Lists of states are compared as the library orders lists. -/
theorem compareLists_compares (l m : List StateId) : (compareLists l m).Compares l m := by
  fun_induction compareLists l m with
  | case1 => exact rfl
  | case2 b m => exact List.nil_lt_cons b m
  | case3 a l => exact List.nil_lt_cons a l
  | case4 a l b m hlt => exact List.cons_lt_cons_iff.2 (.inl hlt)
  | case5 a l b m _ hgt => exact List.cons_lt_cons_iff.2 (.inl hgt)
  | case6 a l b m hlt hgt ih =>
    -- neither head is less, so the tails decide
    obtain rfl : a = b := Nat.le_antisymm (Nat.le_of_not_lt hgt) (Nat.le_of_not_lt hlt)
    have hcons : ∀ {l m : List StateId}, l < m → a :: l < a :: m :=
      fun h => List.cons_lt_cons_iff.2 (.inr ⟨rfl, h⟩)
    cases h : compareLists l m <;> rw [h] at ih
    · exact hcons ih
    · exact congrArg (a :: ·) ih
    · exact hcons ih

theorem compare_eq_lt_iff : s.compare t = .lt ↔ s.toList < t.toList :=
  (compareLists_compares s.toList t.toList).eq_lt

theorem compare_eq_eq_iff : s.compare t = .eq ↔ s = t :=
  (compareLists_compares s.toList t.toList).eq_eq.trans Ordered.ext_iff.symm

theorem compare_eq_gt_iff : s.compare t = .gt ↔ t.compare s = .lt :=
  (compareLists_compares s.toList t.toList).eq_gt.trans compare_eq_lt_iff.symm

theorem compare_trans (hst : s.compare t = .lt) (htu : t.compare u = .lt) : s.compare u = .lt :=
  compare_eq_lt_iff.2 (lt_trans (compare_eq_lt_iff.1 hst) (compare_eq_lt_iff.1 htu))

/-- A set comes before those that go on where it ends. -/
theorem compare_of_append (h : t.toList = s.toList ++ id :: l) : s.compare t = .lt := by
  have hlt : s.toList ++ [] < s.toList ++ id :: l := List.append_left_lt (List.nil_lt_cons id l)
  rw [List.append_nil, ← h] at hlt
  exact compare_eq_lt_iff.2 hlt

/-! ## Histories -/

variable {ν : Type} {sets : ν → StateSet} {lists : ν → List StateId}

/-- What is done to a set: it is made anew, with nothing, one state or a list in it, or it gets one state,
a list, or what is in another set. -/
inductive Change (ν : Type)
  | new
  | singleton (id : StateId)
  | collect (ids : List StateId)
  | insert (id : StateId)
  | extend (ids : List StateId)
  | unionWith (other : ν)

namespace Change

/-- The set that a change makes of `s`, among `sets`. -/
def apply (sets : ν → StateSet) (s : StateSet) : Change ν → StateSet
  | new => Ordered.empty
  | singleton id => Ordered.singleton id
  | collect ids => Ordered.ofList ids
  | insert id => (s.add id).1
  | extend ids => s.insertAll ids
  | unionWith other => s.union (sets other)

/-- The states put in since the set was made, if `l` were before the change. -/
def record (lists : ν → List StateId) (l : List StateId) : Change ν → List StateId
  | new => []
  | singleton id => [id]
  | collect ids => ids
  | insert id => l ++ [id]
  | extend ids => l ++ ids
  | unionWith other => l ++ lists other

theorem holds_apply (hsets : ∀ a, Holds (sets a) (lists a)) (h : Holds s l) (change : Change ν) :
    Holds (change.apply sets s) (change.record lists l) := by
  cases change with
  | new => exact holds_empty
  | singleton id => exact holds_singleton id
  | collect ids => exact holds_ofList ids
  | insert id => exact h.add id
  | extend ids => exact h.insertAll ids
  | unionWith other => exact h.union (hsets other)

end Change

/-- A change of one of the sets. -/
structure Step (ν : Type) where
  /-- The name of the set. -/
  name : ν
  /-- What is done to it. -/
  change : Change ν

variable [DecidableEq ν]

namespace Step

/-- The sets after a step. -/
def apply (step : Step ν) (sets : ν → StateSet) : ν → StateSet :=
  Function.update sets step.name (step.change.apply sets (sets step.name))

/-- The lists of what was put in, after a step. -/
def record (step : Step ν) (lists : ν → List StateId) : ν → List StateId :=
  Function.update lists step.name (step.change.record lists (lists step.name))

/-- A step keeps the members of all sets those of their lists. -/
theorem holds_apply (h : ∀ a, Holds (sets a) (lists a)) (step : Step ν) (a : ν) :
    Holds (step.apply sets a) (step.record lists a) := by
  unfold apply record
  by_cases ha : a = step.name
  · subst ha
    rw [Function.update_self, Function.update_self]
    exact step.change.holds_apply h (h step.name)
  · rw [Function.update_of_ne ha, Function.update_of_ne ha]
    exact h a

end Step

/-- The sets after some steps, with nothing in any of them at first. -/
def after (steps : List (Step ν)) : ν → StateSet :=
  steps.foldl (fun sets step => step.apply sets) fun _ => Ordered.empty

/-- The states put into each set since it was made, first to last and with repeats. -/
def putIn (steps : List (Step ν)) : ν → List StateId :=
  steps.foldl (fun lists step => step.record lists) fun _ => []

theorem after_concat (steps : List (Step ν)) (step : Step ν) :
    after (steps ++ [step]) = step.apply (after steps) := List.foldl_concat ..

theorem putIn_concat (steps : List (Step ν)) (step : Step ν) :
    putIn (steps ++ [step]) = step.record (putIn steps) := List.foldl_concat ..

theorem holds_after (steps : List (Step ν)) (a : ν) : Holds (after steps a) (putIn steps a) := by
  -- a union reads another set, so all of them hold what was put in before the last step
  induction steps using List.reverseRecOn generalizing a with
  | nil => exact holds_empty
  | append_singleton steps step ih =>
    rw [after_concat, putIn_concat]
    exact step.holds_apply ih a

/-- To insert a state into one set makes it a member there, and changes no other membership. -/
theorem mem_after_insert {steps : List (Step ν)} {a c : ν} {id x : StateId} :
    x ∈ after (steps ++ [⟨a, .insert id⟩]) c ↔ c = a ∧ x = id ∨ x ∈ after steps c := by
  rw [after_concat, Step.apply]
  by_cases hc : c = a
  · subst hc
    rw [Function.update_self, Change.apply, mem_add, eq_self, true_and]
  · rw [Function.update_of_ne hc]
    simp only [hc, false_and, false_or]

/-- **Sets by content.** After any steps a set lists, strictly ascending, exactly the states that were put
in since it was made. Two sets, made in any two ways, are equal exactly if the same states were put in, and
their texts tell them apart. They are ordered as their ascending lists are: one of them comes first unless
they are equal, the order is transitive, and a set comes before those that go on where it ends. To insert
a state tells whether it was absent and changes no other membership. Two sets meet exactly if some state
was put into both, whichever is asked. -/
theorem after_known_by_members (h g : List (Step ν)) (a b : ν) :
    ((after h a).toList.Pairwise (· < ·) ∧ ∀ x, x ∈ (after h a).toList ↔ x ∈ putIn h a) ∧
    ((after h a = after g b ↔ ∀ x, x ∈ putIn h a ↔ x ∈ putIn g b) ∧
      ((after h a).text = (after g b).text ↔ after h a = after g b) ∧
      ((after h a).spacedText = (after g b).spacedText ↔ after h a = after g b)) ∧
    (((after h a).compare (after g b) = .lt ↔ (after h a).toList < (after g b).toList) ∧
      ((after h a).compare (after g b) = .eq ↔ after h a = after g b) ∧
      ((after h a).compare (after g b) = .gt ↔ (after g b).compare (after h a) = .lt) ∧
      (∀ u, (after h a).compare (after g b) = .lt → (after g b).compare u = .lt →
        (after h a).compare u = .lt) ∧
      ∀ id rest, (after g b).toList = (after h a).toList ++ id :: rest →
        (after h a).compare (after g b) = .lt) ∧
    (∀ id, (((after h a).add id).2 = true ↔ id ∉ putIn h a) ∧
      ∀ c x, x ∈ after (h ++ [⟨a, .insert id⟩]) c ↔ c = a ∧ x = id ∨ x ∈ after h c) ∧
    (((after h a).intersects (after g b) = true ↔ ∃ x, x ∈ putIn h a ∧ x ∈ putIn g b) ∧
      (after h a).intersects (after g b) = (after g b).intersects (after h a)) := by
  have ha := holds_after h a
  have hb := holds_after g b
  refine ⟨⟨(after h a).ascending, ha⟩, ⟨ha.eq_iff hb, text_eq_iff, spacedText_eq_iff⟩,
    ⟨compare_eq_lt_iff, compare_eq_eq_iff, compare_eq_gt_iff, fun _ => compare_trans,
      fun _ _ => compare_of_append⟩, fun id => ⟨ha.isNew_iff, fun _ _ => mem_after_insert⟩,
    ha.intersects_iff hb, intersects_comm _ _⟩

/-- One state, then more of them, with a repeat. -/
def forwards : List (Step Bool) :=
  [⟨true, .singleton 1⟩, ⟨true, .extend [2, 2]⟩, ⟨true, .insert 3⟩]

/-- The set is made anew after a state was put in, and gets the rest out of another set. -/
def backwards : List (Step Bool) :=
  [⟨true, .insert 7⟩, ⟨false, .collect [3, 1, 3]⟩, ⟨true, .new⟩, ⟨true, .insert 2⟩,
    ⟨true, .unionWith false⟩]

/-- The states 1, 2 and 3, put in forwards and backwards: behind the set of 1 alone, before that of 1
and 3, and without the 7 that was there before the set was made anew. -/
theorem after_known_by_members_backwards :
    putIn backwards true = [2, 3, 1, 3] ∧ after forwards true = after backwards true ∧
      (after backwards true).text = (after forwards true).text ∧
      (after (forwards.take 1) true).compare (after forwards true) = .lt ∧
      (after forwards true).compare (after backwards false) = .lt ∧
      (after (forwards.take 1) true).compare (after backwards false) = .lt ∧
      ((after backwards true).add 7).2 = true ∧
      (after backwards false).intersects (after forwards true) = true := by
  have hforwards : putIn forwards true = [1, 2, 2, 3] := rfl
  have hbackwards : putIn backwards true = [2, 3, 1, 3] := rfl
  obtain ⟨_, ⟨hequal, _⟩, _⟩ := after_known_by_members forwards backwards true true
  obtain ⟨_, ⟨_, htext, _⟩, _, hnew, _⟩ := after_known_by_members backwards forwards true true
  obtain ⟨_, _, ⟨_, _, _, htrans, hgoesOn⟩, _⟩ :=
    after_known_by_members (forwards.take 1) forwards true true
  obtain ⟨_, _, ⟨hless, _⟩, _⟩ := after_known_by_members forwards backwards true false
  obtain ⟨_, _, _, _, hmeet, _⟩ := after_known_by_members backwards forwards false true
  have heq : after forwards true = after backwards true := hequal.2 fun x => by
    rw [hforwards, hbackwards]
    grind
  have hfirst : (after (forwards.take 1) true).compare (after forwards true) = .lt := hgoesOn 2 [3] rfl
  have hsecond : (after forwards true).compare (after backwards false) = .lt := hless.2 (by decide)
  exact ⟨hbackwards, heq, htext.2 heq.symm, hfirst, hsecond, htrans _ hfirst hsecond,
    (hnew 7).1.2 (by decide), hmeet.2 ⟨1, by decide, by decide⟩⟩

end FiniteAutomata.StateSet
