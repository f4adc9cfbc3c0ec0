import FiniteAutomata.Proofs.Nfa.Construction
/-!
# What is wrong with a list of tokens

A token takes as many results as its arity says and leaves one, so the `balance` of tokens is the
number of fragments that they leave. `Token.FallsShort tokens i` says that the token at place `i` takes
more than is left there. The builder reports the first such place, and if there is none, whether more
or fewer than one fragment is left at the end.

Main statement: `ofTokens_diagnosis` tells the cases apart by counting alone, and the tokens that have
an automaton are the listings of expressions.
-/

namespace FiniteAutomata

namespace Token

variable {tokens before after : List Token} {t : Token} {left : List Expression} {i : Nat}

/-- The tokens before place `i` leave fewer results than the token at this place takes. -/
def FallsShort (tokens : List Token) (i : Nat) : Prop :=
  ∃ t, tokens[i]? = some t ∧ balance (tokens.take i) < t.arity

theorem balance_of_reduce? (h : Expression.reduce? [] tokens = some left) :
    balance tokens = left.length := by
  simpa using (Expression.length_of_reduce? h).symm

theorem not_fallsShort_of_reduce? (h : Expression.reduce? [] tokens = some left) :
    ¬ FallsShort tokens i := by
  rintro ⟨t, ht, hshort⟩
  obtain ⟨hi, rfl⟩ := List.getElem?_eq_some_iff.1 ht
  have hsplit : tokens = tokens.take i ++ tokens[i] :: tokens.drop (i + 1) := by
    rw [← List.drop_eq_getElem_cons hi, List.take_append_drop]
  rw [hsplit, Expression.reduce?_append] at h
  obtain ⟨stack, hstack, hrest⟩ := Option.bind_eq_some_iff.1 h
  rw [Expression.reduce?_cons] at hrest
  obtain ⟨next, hnext, _⟩ := Option.bind_eq_some_iff.1 hrest
  rw [balance_of_reduce? hstack, Int.ofNat_lt, ← Expression.reduce?_singleton_eq_none_iff, hnext] at hshort
  cases hshort

/-- A token that takes more than the tokens before it leave is the first to fall short. -/
theorem fallsShort_length (after : List Token) (hleft : Expression.reduce? [] before = some left)
    (hnone : Expression.reduce? left [t] = none) :
    FallsShort (before ++ t :: after) before.length ∧
      ∀ j < before.length, ¬ FallsShort (before ++ t :: after) j := by
  constructor
  · refine ⟨t, by simp, ?_⟩
    rw [List.take_left, balance_of_reduce? hleft, Int.ofNat_lt]
    exact Expression.reduce?_singleton_eq_none_iff.1 hnone
  · rintro j hj ⟨u, hu, hshort⟩
    rw [List.getElem?_append_left hj] at hu
    rw [List.take_append_of_le_length (Nat.le_of_lt hj)] at hshort
    exact not_fallsShort_of_reduce? hleft ⟨u, hu, hshort⟩

end Token

namespace Nfa

variable {tokens : List Token} {left : List Expression}

theorem ofTokens_of_ne_nil (hne : tokens ≠ []) :
    ofTokens tokens = (do (← Builder.empty.feedAll 0 tokens).finish tokens.length) := by
  obtain ⟨t, tokens, rfl⟩ := List.exists_cons_of_ne_nil hne
  exact ofTokens_cons t tokens

/-- **Too few results.** Tokens that leave nothing fail at the first place where they fall short. -/
theorem ofTokens_of_reduce?_eq_none (hne : tokens ≠ []) (h : Expression.reduce? [] tokens = none) :
    ∃ (i : Nat) (t : Token) (depth : Nat), tokens[i]? = some t ∧ Token.FallsShort tokens i ∧
      (∀ j < i, ¬ Token.FallsShort tokens j) ∧ (depth : Int) = Token.balance (tokens.take i) ∧
      ofTokens tokens = .error (.malformed (some t) i depth) := by
  obtain ⟨before, t, after, left, rfl, hleft, hnone⟩ := Expression.exists_of_reduce?_eq_none h
  obtain ⟨hshort, hfirst⟩ := Token.fallsShort_length after hleft hnone
  refine ⟨before.length, t, left.length, by simp, hshort, hfirst, ?_, ?_⟩
  · rw [List.take_left, Token.balance_of_reduce? hleft]
  · rw [ofTokens_of_ne_nil hne, Represents.empty.feedAll_error 0 hleft hnone, Nat.zero_add]
    rfl

/-- **Too few or too many fragments.** Tokens that leave some expressions, but not one, fail at their
end. -/
theorem ofTokens_of_length_ne_one (hne : tokens ≠ []) (h : Expression.reduce? [] tokens = some left)
    (hlength : left.length ≠ 1) :
    ofTokens tokens = .error (.malformed none tokens.length left.length) := by
  obtain ⟨b, hb, hrep⟩ := Represents.empty.feedAll 0 h
  have hfinish := hrep.finish tokens.length
  rw [ofTokens_of_ne_nil hne, hb]
  match left with
  | [] | _ :: _ :: _ => exact hfinish
  | [_] => exact absurd rfl hlength

/-- **Diagnosis.** If some token finds fewer fragments than it takes, the first such token is reported
with its place and what it finds. If none does, but one fragment is not what is left, the number of
tokens is reported with what they leave. Otherwise there is an automaton: the tokens list an
expression. -/
theorem ofTokens_diagnosis (hne : tokens ≠ []) :
    ((∃ i, Token.FallsShort tokens i) →
      ∃ (i : Nat) (t : Token) (depth : Nat), tokens[i]? = some t ∧ Token.FallsShort tokens i ∧
        (∀ j < i, ¬ Token.FallsShort tokens j) ∧ (depth : Int) = Token.balance (tokens.take i) ∧
        ofTokens tokens = .error (.malformed (some t) i depth)) ∧
    ((∀ i, ¬ Token.FallsShort tokens i) → Token.balance tokens ≠ 1 →
      ∃ depth : Nat, (depth : Int) = Token.balance tokens ∧
        ofTokens tokens = .error (.malformed none tokens.length depth)) ∧
    ((∀ i, ¬ Token.FallsShort tokens i) → Token.balance tokens = 1 →
      ∃ nfa, ofTokens tokens = .ok nfa) ∧
    ((∃ nfa, ofTokens tokens = .ok nfa) ↔ ∃ e : Expression, e.listing = tokens) := by
  have hlisting : (∃ nfa, ofTokens tokens = .ok nfa) ↔ ∃ e : Expression, e.listing = tokens := by
    constructor
    · rintro ⟨nfa, hnfa⟩
      rcases ofTokens_cases hnfa with ⟨hnil, _⟩ | ⟨e, _, he, _⟩
      · exact absurd hnil hne
      · exact ⟨e, he⟩
    · rintro ⟨e, rfl⟩
      exact ofTokens_listing e
  cases h : Expression.reduce? [] tokens with
  | none =>
    have hfirst := ofTokens_of_reduce?_eq_none hne h
    obtain ⟨i, _, _, _, hshort, _⟩ := id hfirst
    exact ⟨fun _ => hfirst, fun hnone => absurd hshort (hnone i), fun hnone => absurd hshort (hnone i),
      hlisting⟩
  | some left =>
    have hbalance := Token.balance_of_reduce? h
    refine ⟨fun ⟨i, hshort⟩ => absurd hshort (Token.not_fallsShort_of_reduce? h), fun _ hne1 => ?_,
      fun _ hone => ?_, hlisting⟩
    · exact ⟨left.length, hbalance.symm, ofTokens_of_length_ne_one hne h (by omega)⟩
    · obtain ⟨e, rfl⟩ := List.length_eq_one_iff.1 (show left.length = 1 by omega)
      exact hlisting.2 ⟨e, Expression.reduce?_eq_singleton_iff.1 h⟩

/-- The bar at place 3 finds one fragment, and the star behind it does not matter any more. -/
theorem ofTokens_diagnosis_bar :
    ([.literal 'a', .literal 'b', .concat, .union, .star] : List Token) ≠ [] ∧
      Token.FallsShort [.literal 'a', .literal 'b', .concat, .union, .star] 3 ∧
      (∃ (i : Nat) (t : Token) (depth : Nat),
        ([.literal 'a', .literal 'b', .concat, .union, .star] : List Token)[i]? = some t ∧
          (∀ j < i, ¬ Token.FallsShort [.literal 'a', .literal 'b', .concat, .union, .star] j) ∧
          ofTokens [.literal 'a', .literal 'b', .concat, .union, .star] =
            .error (.malformed (some t) i depth)) ∧
      ¬ ∃ e : Expression, e.listing = [.literal 'a', .literal 'b', .concat, .union, .star] := by
  have hne : ([.literal 'a', .literal 'b', .concat, .union, .star] : List Token) ≠ [] :=
    List.cons_ne_nil _ _
  have hshort : Token.FallsShort [.literal 'a', .literal 'b', .concat, .union, .star] 3 :=
    ⟨.union, rfl, by decide⟩
  obtain ⟨hfirst, _, _, hlisting⟩ := ofTokens_diagnosis hne
  obtain ⟨i, t, depth, hget, _, hbefore, _, herror⟩ := hfirst ⟨3, hshort⟩
  refine ⟨hne, hshort, ⟨i, t, depth, hget, hbefore, herror⟩, fun hexpression => ?_⟩
  obtain ⟨nfa, hnfa⟩ := hlisting.2 hexpression
  cases herror.symm.trans hnfa

end Nfa

end FiniteAutomata
