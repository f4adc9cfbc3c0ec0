import Mathlib.Computability.Language
import FiniteAutomata.Expression
/-!
# Languages of expressions

The language of an expression by its operators, and the expressions that a list of tokens leaves.

Main statement: tokens leave one expression exactly if they list it (`reduce?_eq_singleton_iff`).
-/

namespace FiniteAutomata

open scoped Computability

theorem append_mem_kstar {L : Language Char} {v w : List Char} (hv : v ∈ L) (hw : w ∈ L∗) :
    v ++ w ∈ L∗ := by
  have hle : L * L∗ ≤ L∗ := mul_kstar_le_kstar
  exact hle (Language.append_mem_mul hv hw)

theorem kstar_induction {L : Language Char} {P : List Char → Prop} (nil : P [])
    (append : ∀ v ∈ L, ∀ w, P w → P (v ++ w)) {w : List Char} (hw : w ∈ L∗) : P w := by
  obtain ⟨words, rfl, hwords⟩ := Language.mem_kstar.1 hw
  clear hw
  induction words with
  | nil => exact nil
  | cons v words ih =>
    exact append v (hwords v List.mem_cons_self) _
      (ih fun y hy => hwords y (List.mem_cons_of_mem v hy))

namespace Expression

/-- The words that an expression denotes. -/
def language (e : Expression) : Language Char := {w | e.Denotes w}

@[simp] theorem language_symbol (c : Char) : (symbol c).language = {[c]} := by
  refine Language.ext fun w => ?_
  constructor
  · intro h
    cases h
    rfl
  · intro h
    obtain rfl : w = [c] := h
    exact .symbol c

@[simp] theorem language_concat (e f : Expression) :
    (concat e f).language = e.language * f.language := by
  refine Language.ext fun w => ?_
  rw [Language.mem_mul]
  constructor
  · intro h
    cases h with
    | concat first second => exact ⟨_, first, _, second, rfl⟩
  · rintro ⟨u, hu, v, hv, rfl⟩
    exact .concat hu hv

@[simp] theorem language_union (e f : Expression) :
    (union e f).language = e.language + f.language := by
  refine Language.ext fun w => ?_
  rw [Language.mem_add]
  constructor
  · intro h
    cases h with
    | unionLeft left => exact Or.inl left
    | unionRight right => exact Or.inr right
  · rintro (h | h)
    · exact .unionLeft h
    · exact .unionRight h

@[simp] theorem language_star (e : Expression) : (star e).language = e.language∗ := by
  refine Language.ext fun w => ?_
  constructor
  · intro h
    generalize hs : star e = s at h
    induction h with
    | starNil => exact Language.nil_mem_kstar _
    | starAppend once _ _ ih =>
      cases hs
      exact append_mem_kstar once (ih rfl)
    | _ => cases hs
  · exact kstar_induction .starNil fun v hv w ih => .starAppend hv ih

@[simp] theorem language_plus (e : Expression) : (plus e).language = e.language * e.language∗ := by
  rw [← language_star]
  refine Language.ext fun w => ?_
  rw [Language.mem_mul]
  constructor
  · intro h
    cases h with
    | plus once again => exact ⟨_, once, _, again, rfl⟩
  · rintro ⟨u, hu, v, hv, rfl⟩
    exact .plus hu hv

@[simp] theorem language_optional (e : Expression) : (optional e).language = e.language + 1 := by
  refine Language.ext fun w => ?_
  rw [Language.mem_add, Language.mem_one]
  constructor
  · intro h
    cases h with
    | optionalNil => exact Or.inr rfl
    | optionalOnce once => exact Or.inl once
  · rintro (h | rfl)
    · exact .optionalOnce h
    · exact .optionalNil

/-! ## What tokens leave -/

theorem reduce?_cons (stack : List Expression) (t : Token) (rest : List Token) :
    reduce? stack (t :: rest) = (reduce? stack [t]).bind (reduce? · rest) := by
  cases t with
  | literal c => rfl
  | concat | union => rcases stack with _ | ⟨_, _ | ⟨_, _⟩⟩ <;> rfl
  | star | plus | optional => rcases stack with _ | ⟨_, _⟩ <;> rfl

theorem reduce?_append (stack : List Expression) (s t : List Token) :
    reduce? stack (s ++ t) = (reduce? stack s).bind (reduce? · t) := by
  induction s generalizing stack with
  | nil => rfl
  | cons a s ih =>
    rw [List.cons_append, reduce?_cons stack a (s ++ t), reduce?_cons stack a s, Option.bind_assoc]
    exact congrArg _ (funext fun next => ih next)

/-- The tokens of a stack of expressions, the latest first. -/
def stackListing : List Expression → List Token
  | [] => []
  | e :: stack => stackListing stack ++ e.listing

theorem stackListing_append (taken rest : List Expression) :
    stackListing (taken ++ rest) = stackListing rest ++ stackListing taken := by
  induction taken with
  | nil => simp [stackListing]
  | cons e taken ih => simp [stackListing, ih]

/-- **One token.** It puts one expression in the place of those that it takes, and comes behind their
tokens. -/
theorem exists_of_reduce?_singleton {stack left : List Expression} {t : Token}
    (h : reduce? stack [t] = some left) :
    ∃ e taken rest, left = e :: rest ∧ stack = taken ++ rest ∧ taken.length = t.arity ∧
      e.listing = stackListing taken ++ [t] := by
  cases t with
  | literal c =>
    cases h
    exact ⟨_, [], _, rfl, rfl, rfl, rfl⟩
  | concat | union =>
    rcases stack with _ | ⟨f, _ | ⟨e, rest⟩⟩
    · cases h
    · cases h
    · cases h
      exact ⟨_, [f, e], _, rfl, rfl, rfl, rfl⟩
  | star | plus | optional =>
    rcases stack with _ | ⟨e, rest⟩
    · cases h
    · cases h
      exact ⟨_, [e], _, rfl, rfl, rfl, rfl⟩

theorem reduce?_singleton_eq_none_iff {stack : List Expression} {t : Token} :
    reduce? stack [t] = none ↔ stack.length < t.arity := by
  constructor
  · intro h
    cases t with
    | literal c => cases h
    | concat | union =>
      rcases stack with _ | ⟨_, _ | ⟨_, _⟩⟩
      · exact Nat.zero_lt_two
      · exact Nat.one_lt_two
      · cases h
    | star | plus | optional =>
      rcases stack with _ | ⟨_, _⟩
      · exact Nat.zero_lt_one
      · cases h
  · intro h
    refine Option.eq_none_iff_forall_ne_some.2 fun left hleft => ?_
    obtain ⟨_, taken, rest, _, rfl, htaken, _⟩ := exists_of_reduce?_singleton hleft
    rw [List.length_append] at h
    omega

/-- **Depth.** Tokens add their balance to the number of expressions. -/
theorem length_of_reduce? {stack left : List Expression} {tokens : List Token}
    (h : reduce? stack tokens = some left) :
    (left.length : Int) = stack.length + Token.balance tokens := by
  induction tokens generalizing stack with
  | nil =>
    obtain rfl : stack = left := by simpa [reduce?] using h
    exact (Int.add_zero _).symm
  | cons t tokens ih =>
    rw [reduce?_cons] at h
    obtain ⟨next, hnext, hleft⟩ := Option.bind_eq_some_iff.1 h
    obtain ⟨_, taken, rest, rfl, rfl, htaken, _⟩ := exists_of_reduce?_singleton hnext
    have hlength := ih hleft
    rw [List.length_cons] at hlength
    rw [List.length_append, Token.balance]
    omega

/-- Tokens that leave nothing fail at the first one that takes more than is there. -/
theorem exists_of_reduce?_eq_none {stack : List Expression} {tokens : List Token}
    (h : reduce? stack tokens = none) :
    ∃ before t after left, tokens = before ++ t :: after ∧ reduce? stack before = some left ∧
      reduce? left [t] = none := by
  induction tokens generalizing stack with
  | nil => simp [reduce?] at h
  | cons t tokens ih =>
    rw [reduce?_cons] at h
    cases hnext : reduce? stack [t] with
    | none => exact ⟨[], t, tokens, stack, rfl, by simp [reduce?], hnext⟩
    | some next =>
      rw [hnext] at h
      obtain ⟨before, t', after, left, rfl, hleft, hnone⟩ := ih h
      refine ⟨t :: before, t', after, left, rfl, ?_, hnone⟩
      rw [reduce?_cons, hnext]
      exact hleft

theorem stackListing_of_reduce?_singleton {stack left : List Expression} {t : Token}
    (h : reduce? stack [t] = some left) : stackListing left = stackListing stack ++ [t] := by
  obtain ⟨e, taken, rest, rfl, rfl, _, hlisting⟩ := exists_of_reduce?_singleton h
  rw [stackListing, hlisting, stackListing_append, List.append_assoc]

/-- No token is lost. -/
theorem stackListing_of_reduce? {stack left : List Expression} {tokens : List Token}
    (h : reduce? stack tokens = some left) : stackListing left = stackListing stack ++ tokens := by
  induction tokens generalizing stack with
  | nil =>
    obtain rfl : stack = left := by simpa [reduce?] using h
    simp
  | cons t tokens ih =>
    rw [reduce?_cons] at h
    obtain ⟨next, hnext, hleft⟩ := Option.bind_eq_some_iff.1 h
    rw [ih hleft, stackListing_of_reduce?_singleton hnext]
    simp

/-- **Listings.** Tokens leave one expression exactly if they list it. -/
theorem reduce?_eq_singleton_iff {tokens : List Token} {e : Expression} :
    reduce? [] tokens = some [e] ↔ e.listing = tokens := by
  constructor
  · intro h
    simpa [stackListing] using stackListing_of_reduce? h
  · rintro rfl
    simpa [reduce?] using reduce?_listing e [] []

end Expression

/-! ## Lists of tokens -/

theorem Token.denote_nil {w : List Char} : Token.Denote [] w ↔ w = [] := by
  refine ⟨?_, fun h => Or.inl ⟨rfl, h⟩⟩
  rintro (⟨_, h⟩ | ⟨e, he, _⟩)
  · exact h
  · exact absurd he e.listing_ne_nil

theorem Token.denote_listing {e : Expression} {w : List Char} :
    Token.Denote e.listing w ↔ w ∈ e.language := by
  constructor
  · rintro (⟨h, _⟩ | ⟨f, hf, hw⟩)
    · exact absurd h e.listing_ne_nil
    · rwa [Expression.listing_inj hf] at hw
  · exact fun h => Or.inr ⟨e, rfl, h⟩

end FiniteAutomata
