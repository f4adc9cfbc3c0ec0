import FiniteAutomata.Proofs.Pattern
/-!
# Postfix text reads back

A printer puts a backslash before a symbol that would be read as something else, and a reader takes
every character for a token of its own, skips white space and takes what follows a backslash for a
symbol. That the two fit is shown for one token, whatever text comes behind it (`Reads.written`).

Main statement: tokens are read back, also with white space around them (`read_print`).
-/

namespace FiniteAutomata.PostfixText

variable {c : Char} {gap rest : List Char} {tokens : List Token}

/-- Wherever the text begins, it is read as the tokens. -/
def Reads (text : List Char) (tokens : List Token) : Prop :=
  ∀ offset, readFrom offset text = .ok tokens

/-- Tokens with a gap before each of them, the first one being `gaps 0`, and one behind the last. -/
def spread (gaps : Nat → List Char) : List Token → List Char
  | [] => gaps 0
  | t :: tokens => gaps 0 ++ (t.written ++ spread (fun i => gaps (i + 1)) tokens)

theorem spread_nil_gaps (tokens : List Token) :
    spread (fun _ => []) tokens = tokens.flatMap Token.written := by
  induction tokens with
  | nil => rfl
  | cons t tokens ih => rw [spread, ih, List.nil_append, List.flatMap_cons]

theorem Reads.cons (hc : c ≠ '\\') (h : Reads rest tokens) :
    Reads (c :: rest) (if CodePoints.whiteSpace.contains c then tokens
      else (Token.ofOperator? c).getD (.literal c) :: tokens) := by
  intro offset
  rw [readFrom.eq_4 offset c rest (fun hc' _ => hc hc') (fun _ _ hc' _ => hc hc'), h]
  show (if _ then Except.ok tokens else Except.ok _) = _
  split <;> rfl

theorem Reads.escape (h : Reads rest tokens) : Reads ('\\' :: c :: rest) (.literal c :: tokens) := by
  intro offset
  rw [readFrom, h]
  rfl

theorem Reads.skip (hgap : ∀ c ∈ gap, CodePoints.whiteSpace.contains c = true)
    (h : Reads rest tokens) : Reads (gap ++ rest) tokens := by
  induction gap with
  | nil => exact h
  | cons c gap ih =>
    obtain ⟨hc, hgap⟩ := List.forall_mem_cons.1 hgap
    have hne : c ≠ '\\' := by
      rintro rfl
      revert hc
      decide
    simpa only [hc, if_true, List.cons_append] using (ih hgap).cons hne

/-- **One token.** What is printed for a token is read as that token. -/
theorem Reads.written (t : Token) (h : Reads rest tokens) :
    Reads (t.written ++ rest) (t :: tokens) := by
  cases t with
  | literal c =>
    rw [Token.written]
    by_cases hc : Token.needsEscape c = true
    · rw [if_pos hc]
      exact h.escape
    · rw [if_neg hc]
      simp only [Token.needsEscape, Bool.or_eq_true, decide_eq_true_eq, not_or,
        Option.not_isSome_iff_eq_none] at hc
      obtain ⟨⟨⟨⟨hoperator, hbackslash⟩, _⟩, _⟩, hblank⟩ := hc
      have key := h.cons hbackslash
      rwa [if_neg hblank, hoperator] at key
  | concat => exact h.cons (c := '.') (by decide)
  | union => exact h.cons (c := '|') (by decide)
  | star => exact h.cons (c := '*') (by decide)
  | plus => exact h.cons (c := '+') (by decide)
  | optional => exact h.cons (c := '?') (by decide)

/-- **All tokens**, with white space around them. -/
theorem reads_spread {gaps : Nat → List Char}
    (hgaps : ∀ i, ∀ c ∈ gaps i, CodePoints.whiteSpace.contains c = true) :
    Reads (spread gaps tokens) tokens := by
  induction tokens generalizing gaps with
  | nil =>
    have hnil : Reads [] [] := fun _ => rfl
    simpa only [spread, List.append_nil] using hnil.skip (hgaps 0)
  | cons t tokens ih =>
    exact ((ih fun i => hgaps (i + 1)).written t).skip (hgaps 0)

/-- **Reading back.** Tokens are read from what is printed for them, whatever white space is put
before, between and behind them. So a pattern is made again from its postfix text. -/
theorem read_print (tokens : List Token) :
    read (print tokens) = .ok tokens ∧
      (∀ gaps : Nat → List Char, (∀ i, ∀ c ∈ gaps i, CodePoints.whiteSpace.contains c = true) →
        read (String.ofList (spread gaps tokens)) = .ok tokens) ∧
      ∀ p, Pattern.ofTokens tokens = .ok p → Pattern.ofPostfix p.postfixText = .ok p := by
  have hspread : ∀ gaps : Nat → List Char,
      (∀ i, ∀ c ∈ gaps i, CodePoints.whiteSpace.contains c = true) →
        read (String.ofList (spread gaps tokens)) = .ok tokens := by
    intro gaps hgaps
    unfold read
    rw [String.toList_ofList]
    exact reads_spread hgaps 0
  have hprint : read (print tokens) = .ok tokens := by
    have key := hspread (fun _ => []) (fun _ c hc => absurd hc List.not_mem_nil)
    rwa [spread_nil_gaps] at key
  refine ⟨hprint, hspread, fun p hp => ?_⟩
  unfold Pattern.ofPostfix Pattern.postfixText
  rw [Pattern.tokens_of_ofTokens hp, hprint]
  exact hp

/-- A backslash beside a symbol that needs one, and a symbol that is white space. -/
theorem read_print_backslash :
    ['\n', '\u2003'].all CodePoints.whiteSpace.contains = true ∧
      print [.literal '\\', .literal '\u3000', .concat] = "\\\\\\\u3000." ∧
      read "\n\u2003\\\\\n\u2003\\\u3000\n\u2003.\n\u2003" =
        .ok [.literal '\\', .literal '\u3000', .concat] ∧
      ∃ p, Pattern.ofTokens [.literal '\\', .literal '\u3000', .concat] = .ok p ∧
        Pattern.ofPostfix p.postfixText = .ok p := by
  have hgap : ['\n', '\u2003'].all CodePoints.whiteSpace.contains = true := by decide
  obtain ⟨_, hspread, hpattern⟩ := read_print [.literal '\\', .literal '\u3000', .concat]
  obtain ⟨nfa, h⟩ : ∃ nfa, Nfa.ofTokens [.literal '\\', .literal '\u3000', .concat] = .ok nfa :=
    ⟨_, rfl⟩
  obtain ⟨p, hp, _⟩ := Pattern.exists_of_nfa h
  exact ⟨hgap, rfl, hspread (fun _ => ['\n', '\u2003']) (fun _ => List.all_eq_true.1 hgap), p, hp,
    hpattern p hp⟩

end FiniteAutomata.PostfixText
