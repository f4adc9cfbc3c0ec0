import FiniteAutomata.Fault
import Mathlib.Data.List.Forall2
/-!
# Results without faults

`Returns x P` says that `x` gives a result, and that the result has the property `P`. Each function
that can fail has one lemma of this form, and a block of such functions is put together by
`Returns.bind` and by the rules for loops over a list.
-/

namespace FiniteAutomata

variable {ε α β : Type}

/-- There is a result, and it has the property `P`. -/
def Returns (x : Except ε α) (P : α → Prop) : Prop := ∃ a, x = .ok a ∧ P a

namespace Returns

variable {x : Except ε α} {P Q : α → Prop}

theorem pure {a : α} (h : P a) : Returns (pure a : Except ε α) P := ⟨a, rfl, h⟩

theorem mono (h : Returns x P) (hPQ : ∀ a, P a → Q a) : Returns x Q := by
  obtain ⟨a, ha, hP⟩ := h
  exact ⟨a, ha, hPQ a hP⟩

theorem bind {R : β → Prop} {f : α → Except ε β} (h : Returns x P)
    (hf : ∀ a, P a → Returns (f a) R) : Returns (x >>= f) R := by
  obtain ⟨a, rfl, hP⟩ := h
  exact hf a hP

theorem of_eq_ok (h : Returns x P) {a : α} (ha : x = .ok a) : P a := by
  obtain ⟨b, hb, hP⟩ := h
  obtain rfl : b = a := Except.ok.inj (hb.symm.trans ha)
  exact hP

/-- Computations that return whether the same holds return the same. -/
theorem exists_of_iff {x y : Except ε Bool} {p q : Prop} (hx : Returns x fun b => b = true ↔ p)
    (hy : Returns y fun b => b = true ↔ q) (hpq : p ↔ q) : ∃ b, x = .ok b ∧ y = .ok b := by
  obtain ⟨a, ha, hp⟩ := hx
  obtain ⟨b, hb, hq⟩ := hy
  obtain rfl : a = b := Bool.eq_iff_iff.2 (hp.trans (hpq.trans hq.symm))
  exact ⟨a, ha, hb⟩

/-- A loop keeps an invariant that may speak of the elements still to come. -/
theorem foldlM {I : List β → α → Prop} {f : α → β → Except ε α}
    (step : ∀ b rest a, I (b :: rest) a → Returns (f a b) (I rest)) {l : List β} {a : α}
    (h : I l a) : Returns (l.foldlM f a) (I []) := by
  induction l generalizing a with
  | nil => exact pure h
  | cons b rest ih =>
    rw [List.foldlM_cons]
    exact (step b rest a h).bind fun _ h' => ih h'

end Returns

theorem exists_of_bind_eq_ok {x : Except ε α} {f : α → Except ε β} {b : β}
    (h : x >>= f = .ok b) : ∃ a, x = .ok a ∧ f a = .ok b := by
  cases x with
  | error e => cases h
  | ok a => exact ⟨a, rfl, h⟩

/-- What is done in two parts, the second of which cannot fail, fails where the first does. -/
theorem bind_eq_error_iff {x : Except ε α} {f : α → Except ε β} {e : ε} (hf : ∀ a, ∃ b, f a = .ok b) :
    x >>= f = .error e ↔ x = .error e := by
  cases x with
  | error e' => exact ⟨fun h => by cases h; rfl, fun h => by cases h; rfl⟩
  | ok a =>
    obtain ⟨b, hb⟩ := hf a
    constructor
    · intro h
      cases hb.symm.trans h
    · intro h
      cases h

theorem bind_eq_error_iff_or {x : Except ε α} {f : α → Except ε β} {e : ε} :
    x >>= f = .error e ↔ x = .error e ∨ ∃ a, x = .ok a ∧ f a = .error e := by
  cases x with
  | error e' =>
    constructor
    · intro h
      cases h
      exact Or.inl rfl
    · rintro (h | ⟨a, ha, _⟩)
      · cases h
        rfl
      · cases ha
  | ok a =>
    constructor
    · intro h
      exact Or.inr ⟨a, rfl, h⟩
    · rintro (h | ⟨b, hb, h⟩)
      · cases h
      · cases hb
        exact h

/-- A loop that fails does so at the first element whose step fails. -/
theorem foldlM_eq_error_iff {f : α → β → Except ε α} {l : List β} {a : α} {e : ε} :
    l.foldlM f a = .error e ↔ ∃ before b after, l = before ++ b :: after ∧
      ∃ c, before.foldlM f a = .ok c ∧ f c b = .error e := by
  induction l generalizing a with
  | nil =>
    constructor
    · intro h
      cases h
    · rintro ⟨before, b, after, hsplit, _⟩
      exact absurd hsplit.symm (List.append_ne_nil_of_right_ne_nil _ (List.cons_ne_nil _ _))
  | cons b rest ih =>
    rw [List.foldlM_cons, bind_eq_error_iff_or]
    constructor
    · rintro (h | ⟨c, hc, h⟩)
      · exact ⟨[], b, rest, rfl, a, rfl, h⟩
      · obtain ⟨before, b', after, rfl, d, hd, hfail⟩ := ih.1 h
        refine ⟨b :: before, b', after, rfl, d, ?_, hfail⟩
        rw [List.foldlM_cons, hc]
        exact hd
    · rintro ⟨before, b', after, hsplit, d, hd, hfail⟩
      cases before with
      | nil =>
        cases hsplit
        cases hd
        exact Or.inl hfail
      | cons _ before =>
        cases hsplit
        rw [List.foldlM_cons] at hd
        obtain ⟨c, hc, hd⟩ := exists_of_bind_eq_ok hd
        exact Or.inr ⟨c, hc, ih.2 ⟨before, b', after, rfl, d, hd, hfail⟩⟩

theorem exists_of_foldlM_eq_ok {f : α → β → Except ε α} {l : List β} {b : β} {a c : α}
    (h : l.foldlM f a = .ok c) (hb : b ∈ l) : ∃ a' a'', f a' b = .ok a'' := by
  obtain ⟨before, after, rfl⟩ := List.append_of_mem hb
  rw [List.foldlM_append] at h
  obtain ⟨a', _, h⟩ := exists_of_bind_eq_ok h
  rw [List.foldlM_cons] at h
  obtain ⟨a'', h, _⟩ := exists_of_bind_eq_ok h
  exact ⟨a', a'', h⟩

theorem mapM_eq_ok {f : α → Except ε β} {g : α → β} {l : List α} (h : ∀ a ∈ l, f a = .ok (g a)) :
    l.mapM f = .ok (l.map g) := by
  induction l with
  | nil => rfl
  | cons a l ih =>
    rw [List.mapM_cons, h a List.mem_cons_self, ih fun b hb => h b (List.mem_cons_of_mem a hb)]
    rfl

/-- What is done to each element has results where each element has one, in the same order. -/
theorem mapM_eq_ok_iff {f : α → Except ε β} {l : List α} {m : List β} :
    l.mapM f = .ok m ↔ List.Forall₂ (fun a b => f a = .ok b) l m := by
  induction l generalizing m with
  | nil =>
    rw [List.mapM_nil, List.forall₂_nil_left_iff]
    exact ⟨fun h => (Except.ok.inj h).symm, fun h => congrArg Except.ok h.symm⟩
  | cons a l ih =>
    rw [List.mapM_cons, List.forall₂_cons_left_iff]
    constructor
    · intro h
      obtain ⟨b, hb, h⟩ := exists_of_bind_eq_ok h
      obtain ⟨rest, hrest, h⟩ := exists_of_bind_eq_ok h
      exact ⟨b, rest, hb, ih.1 hrest, (Except.ok.inj h).symm⟩
    · rintro ⟨b, rest, hb, hrest, rfl⟩
      rw [hb, ih.2 hrest]
      rfl

end FiniteAutomata
