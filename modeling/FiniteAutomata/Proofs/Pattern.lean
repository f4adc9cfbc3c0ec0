import FiniteAutomata.Pattern
import FiniteAutomata.Proofs.Dfa.Ranks
import FiniteAutomata.Proofs.Dfa.Simulation
import FiniteAutomata.Proofs.Dfa.Useful
import FiniteAutomata.Proofs.Dump
import FiniteAutomata.Proofs.Infix.Depth
/-!
# Patterns and their languages

A list of tokens that makes one expression makes a pattern, and the automata of all its stages accept
the language of the tokens (`IsCompiled.accepts_returns`). The last one is canonical
(`IsCompiled.canonical`), so it is told by the language alone, and has as few states as any automaton
that is deterministic.

The tokens of an infix text always make one expression, so a text that makes no pattern is one that
cannot be read (`ofInfix_eq_error_iff`). No state of the deterministic automata is useless
(`useful_ofTokens`), and the numbers of the states are in the order of the first words that lead to them
(`numbered_ofTokens`).
-/

namespace FiniteAutomata.Pattern

variable {p p₁ p₂ : Pattern} {tokens : List Token} {w : List Char}

/-- The automata of a pattern are made from its tokens, and each keeps what it is to keep. -/
structure IsCompiled (p : Pattern) : Prop where
  ofNfa_eq : Dfa.ofNfa p.nfa = .ok p.dfa
  minimal_eq : p.dfa.minimal = .ok p.minimal
  whole : ∃ f, p.nfa.IsWhole f {w | Token.Denote p.tokens w}
  explored : Dfa.Explored p.nfa p.dfa
  quotient : ∃ block, p.dfa.IsQuotient p.minimal block

theorem exists_of_nfa {nfa : Nfa} (h : Nfa.ofTokens tokens = .ok nfa) :
    ∃ p, ofTokens tokens = .ok p ∧ p.tokens = tokens ∧ p.nfa = nfa ∧ IsCompiled p := by
  obtain ⟨f, hwhole⟩ := Nfa.isWhole_of_ofTokens h
  obtain ⟨dfa, hdfa, hexplored⟩ := Dfa.ofNfa_returns hwhole.wellFormed
  obtain ⟨minimal, hminimal, hquotient⟩ := Dfa.minimal_returns (Dfa.Explored.wellFormed hexplored)
  refine ⟨⟨tokens, nfa, dfa, minimal⟩, ?_, rfl, rfl, hdfa, hminimal, ⟨f, hwhole⟩, hexplored, hquotient⟩
  unfold ofTokens
  simp only [h, hdfa, hminimal, Except.mapError, bind, Except.bind, pure, Except.pure]

theorem tokens_of_ofTokens (h : ofTokens tokens = .ok p) : p.tokens = tokens := by
  obtain ⟨nfa, hnfa, _⟩ := exists_of_bind_eq_ok h
  obtain ⟨p', hp', htokens, _⟩ := exists_of_nfa hnfa
  obtain rfl : p = p' := Except.ok.inj (h.symm.trans hp')
  exact htokens

theorem isCompiled_of_ofTokens (h : ofTokens tokens = .ok p) : IsCompiled p := by
  obtain ⟨nfa, hnfa, _⟩ := exists_of_bind_eq_ok h
  obtain ⟨p', hp', _, _, hcompiled⟩ := exists_of_nfa hnfa
  obtain rfl : p = p' := Except.ok.inj (h.symm.trans hp')
  exact hcompiled

namespace IsCompiled

variable (h : IsCompiled p)

include h

theorem nfa_accepts_iff : p.nfa.AcceptsByPath w ↔ Token.Denote p.tokens w := by
  obtain ⟨f, hwhole⟩ := h.whole
  exact hwhole.acceptsByPath_iff

theorem nfa_trim : p.nfa.Trim := by
  obtain ⟨f, hwhole⟩ := h.whole
  exact hwhole.trim

theorem dfa_accepts_iff : p.dfa.asPartial.Accepts w ↔ Token.Denote p.tokens w := by
  rw [Dfa.Explored.accepts_iff h.explored h.nfa_trim.wellFormed, h.nfa_accepts_iff]

theorem dfa_trim : p.dfa.Trim := Dfa.Explored.trim h.explored h.nfa_trim

theorem canonical : p.minimal.Canonical := by
  obtain ⟨block, hquotient⟩ := h.quotient
  exact hquotient.canonical h.dfa_trim (Dfa.Explored.ranked h.explored)

theorem minimal_accepts_iff : p.minimal.asPartial.Accepts w ↔ Token.Denote p.tokens w := by
  obtain ⟨block, hquotient⟩ := h.quotient
  rw [← hquotient.sameLanguage, h.dfa_accepts_iff]

theorem accepts_returns (s : Stage) (w : List Char) :
    Returns ((p.stage s).accepts w) fun b => b = true ↔ Token.Denote p.tokens w := by
  cases s with
  | nfa =>
    rw [← h.nfa_accepts_iff]
    exact Nfa.accepts_returns h.nfa_trim.wellFormed w
  | dfa =>
    rw [← h.dfa_accepts_iff]
    exact Dfa.accepts_returns (Dfa.Explored.wellFormed h.explored) w
  | minimal =>
    rw [← h.minimal_accepts_iff]
    exact Dfa.accepts_returns h.canonical.wellFormed w

/-- The automata of all stages give the same verdict on every input. -/
theorem exists_verdicts :
    ∃ accepted : String → Bool,
      (∀ s input, (p.stage s).accepts input.toList = .ok (accepted input)) ∧
      ∀ input, accepted input = true ↔ Token.Denote p.tokens input.toList := by
  have hverdict : ∀ input : String, ∃ b, (∀ s, (p.stage s).accepts input.toList = .ok b) ∧
      (b = true ↔ Token.Denote p.tokens input.toList) := by
    intro input
    obtain ⟨b, _, hb⟩ := h.accepts_returns .minimal input.toList
    refine ⟨b, fun s => ?_, hb⟩
    obtain ⟨b', heq, hb'⟩ := h.accepts_returns s input.toList
    rw [heq, Bool.eq_iff_iff.2 (hb'.trans hb.symm)]
  choose accepted hstage hdenote using hverdict
  exact ⟨accepted, fun s input => hstage input s, hdenote⟩

end IsCompiled

theorem isCompiled_of_reading {reading : Except SyntaxError (List Token)}
    (h : (do ofTokens (← reading.mapError BuildError.text)) = .ok p) :
    reading = .ok p.tokens ∧ p.IsCompiled := by
  cases reading with
  | error cause => cases h
  | ok tokens =>
    have h : ofTokens tokens = .ok p := h
    exact ⟨congrArg Except.ok (tokens_of_ofTokens h).symm, isCompiled_of_ofTokens h⟩

theorem exists_of_infix {text : String} (h : InfixText.tokens text = .ok tokens) :
    ∃ p, ofInfix text = .ok p ∧ p.tokens = tokens ∧ IsCompiled p := by
  obtain ⟨nfa, hnfa⟩ := InfixText.exists_nfa_of_tokens h
  obtain ⟨p, hp, htokens, _, hcompiled⟩ := exists_of_nfa hnfa
  refine ⟨p, ?_, htokens, hcompiled⟩
  unfold ofInfix
  simp only [h, hp, Except.mapError, bind, Except.bind]

/-- **From text to verdict.** A text that can be read makes a pattern, and all its automata accept
exactly the words that the grammar says the text denotes. -/
theorem isMatch_ofInfix {text : String} (h : InfixText.tokens text = .ok tokens) :
    ∃ p, ofInfix text = .ok p ∧ ∀ input : String, ∃ b, p.isMatch input = .ok b ∧
      (∀ s, (p.stage s).accepts input.toList = .ok b) ∧
      (b = true ↔ Grammar.Denotes text input.toList) := by
  obtain ⟨p, hp, rfl, hcompiled⟩ := exists_of_infix h
  refine ⟨p, hp, fun input => ?_⟩
  obtain ⟨b, hb, hdenote⟩ := hcompiled.accepts_returns .minimal input.toList
  refine ⟨b, hb, fun s => ?_, hdenote.trans (InfixText.denotes_iff_denote h _).symm⟩
  obtain ⟨b', hb', hdenote'⟩ := hcompiled.accepts_returns s input.toList
  rw [hb', Bool.eq_iff_iff.2 (hdenote'.trans hdenote.symm)]

/-- Juxtaposition binds tighter than the bar. -/
theorem isMatch_ofInfix_bar :
    InfixText.tokens "a|bc*" =
      .ok [.literal 'a', .literal 'b', .literal 'c', .star, .concat, .union] ∧
    ∃ p, ofInfix "a|bc*" = .ok p ∧ ∀ input : String, ∃ b, p.isMatch input = .ok b ∧
      (∀ s, (p.stage s).accepts input.toList = .ok b) ∧
      (b = true ↔ Grammar.Denotes "a|bc*" input.toList) := by
  have h : InfixText.tokens "a|bc*" =
      .ok [.literal 'a', .literal 'b', .literal 'c', .star, .concat, .union] := by decide
  exact ⟨h, isMatch_ofInfix h⟩

theorem ofInfix_of_error {text : String} {cause : SyntaxError}
    (h : InfixText.tokens text = .error cause) : ofInfix text = .error (.text cause) := by
  unfold ofInfix
  simp only [h, Except.mapError, bind, Except.bind]

/-- **Infix text fails early.** A text makes no pattern only if it cannot be read, and then for that
cause: the tokens of a text that can be read have an automaton, every operator among them finds the
fragments that it takes, and one fragment is left, or none if there are no tokens. -/
theorem ofInfix_eq_error_iff (text : String) :
    (∀ error, ofInfix text = .error error ↔
      ∃ cause, InfixText.tokens text = .error cause ∧ error = .text cause) ∧
    (∀ token? position depth, ofInfix text ≠ .error (.malformed token? position depth)) ∧
    ∀ tokens, InfixText.tokens text = .ok tokens →
      (∃ nfa, Nfa.ofTokens tokens = .ok nfa) ∧
      (∀ before t after, tokens = before ++ t :: after →
        ∃ b, Nfa.Builder.empty.feedAll 0 before = .ok b ∧ t.arity ≤ b.stack.length) ∧
      ∃ b, Nfa.Builder.empty.feedAll 0 tokens = .ok b ∧
        b.stack.length = if tokens = [] then 0 else 1 := by
  have herror : ∀ error, ofInfix text = .error error ↔
      ∃ cause, InfixText.tokens text = .error cause ∧ error = .text cause := by
    intro error
    cases h : InfixText.tokens text with
    | error cause => simp [ofInfix_of_error h, eq_comm]
    | ok tokens =>
      obtain ⟨p, hp, _⟩ := exists_of_infix h
      simp [hp]
  refine ⟨herror, fun token? position depth hmalformed => ?_, fun tokens h => ?_⟩
  · obtain ⟨_, _, hcause⟩ := (herror _).1 hmalformed
    cases hcause
  · refine ⟨InfixText.exists_nfa_of_tokens h, ?_⟩
    rcases InfixText.tokens_eq_ok_iff.1 h with ⟨_, rfl⟩ | ⟨e, _, rfl⟩
    · refine ⟨fun before t after hsplit => ?_, _, rfl, rfl⟩
      cases before <;> cases hsplit
    · refine ⟨fun _ _ _ hsplit => Nfa.feedAll_of_listing_eq hsplit, ?_⟩
      obtain ⟨b, hb, hlength⟩ := Nfa.feedAll_of_reduce? (Expression.reduce?_eq_singleton_iff.2 rfl)
      refine ⟨b, hb, ?_⟩
      rw [hlength, if_neg e.listing_ne_nil]
      rfl

/-- A group with an operator behind it, next to a letter. -/
theorem ofInfix_eq_error_iff_group :
    InfixText.tokens "a(b|c)*" =
      .ok [.literal 'a', .literal 'b', .literal 'c', .union, .star, .concat] ∧
    (∀ error, ofInfix "a(b|c)*" ≠ .error error) ∧
    ∃ b, Nfa.Builder.empty.feedAll 0
        [.literal 'a', .literal 'b', .literal 'c', .union, .star, .concat] = .ok b ∧
      b.stack.length = 1 := by
  have h : InfixText.tokens "a(b|c)*" =
      .ok [.literal 'a', .literal 'b', .literal 'c', .union, .star, .concat] := by decide
  obtain ⟨herror, _, htokens⟩ := ofInfix_eq_error_iff "a(b|c)*"
  refine ⟨h, fun error hfail => ?_, (htokens _ h).2.2⟩
  obtain ⟨cause, hcause, _⟩ := (herror error).1 hfail
  cases h.symm.trans hcause

universe u

/-- **Minimality.** No two states of the last automaton accept the same words, and no deterministic
automaton that accepts the same words has fewer states. -/
theorem minimal_isLeast {nfa : Nfa} (h : Nfa.ofTokens tokens = .ok nfa) :
    ∃ dfa minimal, Dfa.ofNfa nfa = .ok dfa ∧ dfa.minimal = .ok minimal ∧
      (∀ p < minimal.size, ∀ q < minimal.size,
        (∀ w, minimal.AcceptsFrom p w ↔ minimal.AcceptsFrom q w) → p = q) ∧
      ∀ {σ : Type u} (A : PartialAutomaton σ),
        (∀ w, A.Accepts w ↔ minimal.accepts w = .ok true) →
          ∃ f : Fin minimal.size → σ, Function.Injective f := by
  obtain ⟨p, _, _, rfl, hcompiled⟩ := exists_of_nfa h
  have hcanonical := hcompiled.canonical
  refine ⟨p.dfa, p.minimal, hcompiled.ofNfa_eq, hcompiled.minimal_eq, fun q hq r hr hsame => ?_,
    fun A hA => ?_⟩
  · refine hcanonical.reduced q hq r hr fun w => ?_
    rw [← Dfa.acceptsFrom_iff hcanonical.wellFormed hq, ← Dfa.acceptsFrom_iff hcanonical.wellFormed hr]
    exact hsame w
  · refine Dfa.exists_injective A hcanonical.toTrim hcanonical.reduced fun w => ?_
    obtain ⟨b, hb, hiff⟩ := Dfa.accepts_returns hcanonical.wellFormed w
    rw [hA, hb, Except.ok.injEq, hiff]

/-- The automaton of `a|bc` is as small as it can be. -/
theorem minimal_isLeast_union :
    ∃ nfa, Nfa.ofTokens [.literal 'a', .literal 'b', .literal 'c', .concat, .union] = .ok nfa ∧
      ∃ dfa minimal, Dfa.ofNfa nfa = .ok dfa ∧ dfa.minimal = .ok minimal ∧
        (∀ p < minimal.size, ∀ q < minimal.size,
          (∀ w, minimal.AcceptsFrom p w ↔ minimal.AcceptsFrom q w) → p = q) ∧
        ∀ {σ : Type} (A : PartialAutomaton σ),
          (∀ w, A.Accepts w ↔ minimal.accepts w = .ok true) →
            ∃ f : Fin minimal.size → σ, Function.Injective f := by
  have h : ∃ nfa,
      Nfa.ofTokens [.literal 'a', .literal 'b', .literal 'c', .concat, .union] = .ok nfa := ⟨_, rfl⟩
  obtain ⟨nfa, h⟩ := h
  exact ⟨nfa, h, minimal_isLeast h⟩

/-- **Canonical form.** The last automata of two lists of tokens are the same, but for what their
states stand for, exactly if the lists denote the same language. -/
theorem sameShape_minimal_iff {tokens₁ tokens₂ : List Token} {nfa₁ nfa₂ : Nfa}
    (h₁ : Nfa.ofTokens tokens₁ = .ok nfa₁) (h₂ : Nfa.ofTokens tokens₂ = .ok nfa₂) :
    ∃ p₁ p₂, ofTokens tokens₁ = .ok p₁ ∧ ofTokens tokens₂ = .ok p₂ ∧
      (Dfa.SameShape p₁.minimal p₂.minimal ↔ ∀ w, Token.Denote tokens₁ w ↔ Token.Denote tokens₂ w) ∧
      (Dfa.SameShape p₁.minimal p₂.minimal → ∃ text,
        (p₁.stage .minimal).plainDump = .ok text ∧ (p₂.stage .minimal).plainDump = .ok text) := by
  obtain ⟨p₁, hp₁, rfl, _, hcompiled₁⟩ := exists_of_nfa h₁
  obtain ⟨p₂, hp₂, rfl, _, hcompiled₂⟩ := exists_of_nfa h₂
  refine ⟨p₁, p₂, hp₁, hp₂, ⟨fun hshape w => ?_, fun hlang => ?_⟩, fun hshape => ?_⟩
  · obtain ⟨b₁, hb₁, hiff₁⟩ := hcompiled₁.accepts_returns .minimal w
    obtain ⟨b₂, hb₂, hiff₂⟩ := hcompiled₂.accepts_returns .minimal w
    have hsame : b₁ = b₂ :=
      Except.ok.inj (hb₁.symm.trans ((hshape.accepts_eq w).trans hb₂))
    rw [← hiff₁, ← hiff₂, hsame]
  · refine hcompiled₁.canonical.sameShape hcompiled₂.canonical fun w => ?_
    rw [hcompiled₁.minimal_accepts_iff, hcompiled₂.minimal_accepts_iff]
    exact hlang w
  · obtain ⟨text, htext⟩ := (p₁.stage .minimal).plainDump_returns
    exact ⟨text, htext, hshape.plainDump_eq.symm.trans htext⟩

/-- Once or more often is once, and then any number of times. -/
theorem sameShape_minimal_iff_plus :
    ∃ p₁ p₂, ofTokens [.literal 'a', .plus] = .ok p₁ ∧
      ofTokens [.literal 'a', .literal 'a', .star, .concat] = .ok p₂ ∧
      Dfa.SameShape p₁.minimal p₂.minimal := by
  have h₁ : ∃ nfa, Nfa.ofTokens [.literal 'a', .plus] = .ok nfa := ⟨_, rfl⟩
  have h₂ : ∃ nfa, Nfa.ofTokens [.literal 'a', .literal 'a', .star, .concat] = .ok nfa := ⟨_, rfl⟩
  obtain ⟨nfa₁, h₁⟩ := h₁
  obtain ⟨nfa₂, h₂⟩ := h₂
  obtain ⟨p₁, p₂, hp₁, hp₂, hiff, _⟩ := sameShape_minimal_iff h₁ h₂
  refine ⟨p₁, p₂, hp₁, hp₂, hiff.2 fun w => ?_⟩
  have hplus := Token.denote_listing (e := .plus (.symbol 'a')) (w := w)
  have hconcat := Token.denote_listing (e := .concat (.symbol 'a') (.star (.symbol 'a'))) (w := w)
  rw [Expression.language_plus] at hplus
  rw [Expression.language_concat, Expression.language_star] at hconcat
  exact hplus.trans hconcat.symm

/-- **No useless parts.** In the deterministic automata of a pattern, every state is on the way from the
start to an accepting one, and the alphabet is what stands on the edges. The last automaton records all
states of the one before it, and some text matches. -/
theorem useful_ofTokens (h : ofTokens tokens = .ok p) :
    p.dfa.Useful ∧ p.minimal.Useful ∧
      (∀ q, q < p.dfa.size ↔ ∃ m s, p.minimal.state m = .ok s ∧ q ∈ s.subset) ∧
      ∃ input : String, p.isMatch input = .ok true := by
  have hcompiled := isCompiled_of_ofTokens h
  have hcanonical := hcompiled.canonical
  obtain ⟨block, hquotient⟩ := hcompiled.quotient
  refine ⟨hcompiled.dfa_trim.useful, hcanonical.toTrim.useful,
    fun q => hquotient.exists_state_iff hcompiled.dfa_trim, ?_⟩
  obtain ⟨w, hw⟩ := hcanonical.live _ hcanonical.wellFormed.start_lt
  obtain ⟨b, hb, hiff⟩ := Dfa.accepts_returns hcanonical.wellFormed w
  refine ⟨String.ofList w, ?_⟩
  unfold isMatch
  rw [String.toList_ofList, hb, hiff.2 hw]

theorem useful_ofTokens_loop :
    ∃ p, ofTokens [.literal 'a', .literal 'b', .star, .concat, .literal 'c', .union] = .ok p ∧
      p.dfa.Useful ∧ p.minimal.Useful ∧
      (∀ q, q < p.dfa.size ↔ ∃ m s, p.minimal.state m = .ok s ∧ q ∈ s.subset) ∧
      ∃ input : String, p.isMatch input = .ok true := by
  have h : ∃ nfa, Nfa.ofTokens
      [.literal 'a', .literal 'b', .star, .concat, .literal 'c', .union] = .ok nfa := ⟨_, rfl⟩
  obtain ⟨nfa, h⟩ := h
  obtain ⟨p, hp, _⟩ := exists_of_nfa h
  exact ⟨p, hp, useful_ofTokens hp⟩

/-- **Breadth first.** In the deterministic automata of a pattern the start has the number `0`, and one
state comes before another exactly if the first word that leads to it, shorter words coming first and
words of one length in lexicographic order, comes before the first one that leads to the other. -/
theorem numbered_ofTokens (h : ofTokens tokens = .ok p) : p.dfa.Numbered ∧ p.minimal.Numbered := by
  have hcompiled := isCompiled_of_ofTokens h
  have hcanonical := hcompiled.canonical
  exact ⟨hcompiled.dfa_trim.numbered (Dfa.Explored.ranked hcompiled.explored),
    hcanonical.toTrim.numbered hcanonical.ranked⟩

/-- An expression whose minimal automaton has fewer states than its subset automaton. -/
theorem numbered_ofTokens_loop :
    ∃ p, ofTokens [.literal 'b', .literal 'a', .union, .star, .literal 'a', .concat] = .ok p ∧
      p.dfa.Numbered ∧ p.minimal.Numbered := by
  have h : ∃ nfa, Nfa.ofTokens
      [.literal 'b', .literal 'a', .union, .star, .literal 'a', .concat] = .ok nfa := ⟨_, rfl⟩
  obtain ⟨nfa, h⟩ := h
  obtain ⟨p, hp, _⟩ := exists_of_nfa h
  exact ⟨p, hp, numbered_ofTokens hp⟩

end FiniteAutomata.Pattern
