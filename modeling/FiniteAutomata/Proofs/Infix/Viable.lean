import FiniteAutomata.Proofs.Infix.Spacing
/-!
# Lexemes that can go on

Lexemes are viable if some more of them behind make a whole that the grammar accepts. A reader that has
taken lexemes stands in an unfinished derivation of them, and a letter and enough closing parentheses
finish it (`exists_completion`); and whatever the grammar accepts is read from the first lexeme to the
last. So a reader takes exactly the viable lexemes (`viable_iff`), and where it fails, it fails as soon
as nothing that could follow would help.

Main statement: `fails_earliest`.
-/

namespace FiniteAutomata

open Lexeme Grammar

namespace Grammar

/-- The lexemes are an expression, or there are none. -/
def Accepts (s : List Lexeme) : Prop := s = [] ∨ ∃ e, Derives .union s e

/-- Some lexemes behind these make the whole accepted. -/
def Viable (s : List Lexeme) : Prop := ∃ more, Accepts (s ++ more)

theorem Viable.of_isPrefix {s t : List Lexeme} (h : Viable t) (hst : s <+: t) : Viable s := by
  obtain ⟨middle, rfl⟩ := hst
  obtain ⟨more, hmore⟩ := h
  exact ⟨middle ++ more, by rwa [← List.append_assoc]⟩

end Grammar

namespace InfixText

variable {before after s : List Lexeme} {l closing : Lexeme} {r : Reader} {cause : SyntaxError}

/-! ## Readers that fail -/

/-- A reader takes the lexemes `before` and fails at `l`. -/
def FailsAt (before : List Lexeme) (l : Lexeme) (cause : SyntaxError) : Prop :=
  ∃ r, before.foldlM Reader.feed Reader.start = .ok r ∧ r.feed l = .error cause

/-- A reader takes all the lexemes and fails at the end. -/
def FailsAtEnd (lexemes : List Lexeme) (cause : SyntaxError) : Prop :=
  ∃ r, lexemes.foldlM Reader.feed Reader.start = .ok r ∧ r.finish = .error cause

theorem ofLexemes_eq_error_iff : ofLexemes s = .error cause ↔
    (∃ before l after, s = before ++ l :: after ∧ FailsAt before l cause) ∨ FailsAtEnd s cause := by
  unfold ofLexemes
  rw [bind_eq_error_iff_or, foldlM_eq_error_iff]
  rfl

/-! ## Completion -/

/-- Closing parentheses finish what waits behind an operand. -/
theorem Holds.exists_derives {p : Nat} {stack : List Pending} {out : List Token}
    (h : Holds p stack s out) (hclosing : closing.kind = .closeGroup) :
    ∃ n e, Derives .union (s ++ List.replicate n closing) e := by
  induction stack generalizing p s out with
  | nil =>
    obtain ⟨s₀, t, out₀, e, before, _, operand, rfl, _⟩ := h
    cases before
    have hunion : Derives .union t e := operand.lower (Nat.zero_le p)
    exact ⟨0, e, by simpa using hunion⟩
  | cons top stack ih =>
    cases top with
    | operator op => exact ih h.apply
    | group span =>
      obtain ⟨s₀, t, out₀, e, before, _, operand, rfl, rfl⟩ := h
      cases before with
      | @group _ s₀ _ opening before isOpening =>
        have hgroup : Derives .atom (opening :: t ++ [closing]) e :=
          .group isOpening hclosing (operand.lower (Nat.zero_le p))
        obtain ⟨n, f, hf⟩ := ih (Holds.intro before (loose_three _) (.ofAtom hgroup))
        exact ⟨n + 1, f, by simpa [List.replicate_succ] using hf⟩

/-- A letter on its own. -/
def letter : Lexeme := ⟨.literal, ⟨0, 0⟩, ['a']⟩

/-- A closing parenthesis on its own. -/
def closingSign : Lexeme := ⟨.closeGroup, ⟨0, 0⟩, [')']⟩

/-- **Completion.** A letter and some closing parentheses make an expression of what a reader has taken. -/
theorem exists_completion (hs : ∀ l ∈ s, Readable l)
    (hr : s.foldlM Reader.feed Reader.start = .ok r) :
    ∃ n e, Derives .union (s ++ letter :: List.replicate n closingSign) e := by
  have hstep := (inStep_start.feedAll hs hr).symbol (l := letter) (c := 'a') rfl
  obtain ⟨n, e, he⟩ := (hstep.holds rfl).exists_derives (show closingSign.kind = .closeGroup from rfl)
  exact ⟨n, e, by simpa using he⟩

theorem content_ofText_completion (n : Nat) :
    (ofText (String.ofList ('a' :: List.replicate n ')'))).map content =
      (letter :: List.replicate n closingSign).map content := by
  have hsound : ∀ l ∈ letter :: List.replicate n closingSign, l.Sound := by
    intro l hl
    rcases List.mem_cons.1 hl with rfl | hl
    · exact ⟨.single (c := 'a') (by decide) (by decide), by decide⟩
    · obtain rfl := List.eq_of_mem_replicate hl
      exact ⟨.single (c := ')') (by decide) (by decide), by decide⟩
  have htext : (letter :: List.replicate n closingSign).flatMap Lexeme.text =
      'a' :: List.replicate n ')' := by
    rw [List.flatMap_cons, List.flatMap_replicate]
    show 'a' :: (List.replicate n [')']).flatten = _
    rw [List.flatten_replicate_singleton]
  have hfilter : (letter :: List.replicate n closingSign).filter (!·.kind.isTrivia) =
      letter :: List.replicate n closingSign := by
    rw [List.filter_eq_self]
    intro l hl
    rcases List.mem_cons.1 hl with rfl | hl
    · rfl
    · rw [List.eq_of_mem_replicate hl]
      rfl
  rw [← htext, content_ofText hsound, hfilter]

/-! ## Viable lexemes -/

theorem exists_feedAll_of_accepts (h : Accepts s) :
    ∃ r, s.foldlM Reader.feed Reader.start = .ok r := by
  rcases h with rfl | ⟨e, he⟩
  · exact ⟨Reader.start, rfl⟩
  · obtain ⟨r, hr, _⟩ := reads_of_derives he Reader.start rfl (loose_nil _)
    exact ⟨r, hr⟩

/-- **Viable lexemes** are those that a reader takes. -/
theorem viable_iff (hs : ∀ l ∈ s, Readable l) :
    Viable s ↔ ∃ r, s.foldlM Reader.feed Reader.start = .ok r := by
  constructor
  · rintro ⟨more, hmore⟩
    obtain ⟨r, hr⟩ := exists_feedAll_of_accepts hmore
    rw [List.foldlM_append] at hr
    obtain ⟨r', hr', _⟩ := exists_of_bind_eq_ok hr
    exact ⟨r', hr'⟩
  · rintro ⟨r, hr⟩
    obtain ⟨n, e, he⟩ := exists_completion hs hr
    exact ⟨_, Or.inr ⟨e, he⟩⟩

/-- What is viable at all goes on as a text. -/
theorem exists_text_of_viable (hs : ∀ l ∈ s, Readable l) (h : Viable s) :
    ∃ more : String, Accepts (s ++ ofText more) := by
  obtain ⟨r, hr⟩ := (viable_iff hs).1 h
  obtain ⟨n, e, he⟩ := exists_completion hs hr
  refine ⟨String.ofList ('a' :: List.replicate n ')'), Or.inr ⟨e, he.congr ?_⟩⟩
  rw [List.map_append, List.map_append, content_ofText_completion]

theorem accepts_iff (hs : ∀ l ∈ s, Readable l) : Accepts s ↔ ∃ ts, ofLexemes s = .ok ts := by
  constructor
  · rintro (rfl | ⟨e, he⟩)
    · exact ⟨[], ofLexemes_nil⟩
    · exact ⟨e.listing, ofLexemes_of_derives hs he⟩
  · rintro ⟨ts, hts⟩
    by_cases hnil : s = []
    · exact Or.inl hnil
    · obtain ⟨e, he, _⟩ := exists_derives_of_ofLexemes hs hnil hts
      exact Or.inr ⟨e, he⟩

/-! ## Failures -/

/-- **One lexeme.** A reader fails at a lexeme if what comes before it is viable, but not with it. -/
theorem failsAt_iff (hs : ∀ m ∈ before ++ [l], Readable m) :
    (∃ cause, FailsAt before l cause) ↔ Viable before ∧ ¬ Viable (before ++ [l]) := by
  have hbefore : ∀ m ∈ before, Readable m := fun m hm => hs m (List.mem_append_left _ hm)
  rw [viable_iff hbefore, viable_iff hs]
  constructor
  · rintro ⟨cause, r, hr, hfail⟩
    refine ⟨⟨r, hr⟩, ?_⟩
    rintro ⟨r', hr'⟩
    rw [foldlM_feed_append hr, foldlM_feed_singleton] at hr'
    cases hfail.symm.trans hr'
  · rintro ⟨⟨r, hr⟩, hnone⟩
    cases hfeed : r.feed l with
    | error cause => exact ⟨cause, r, hr, hfeed⟩
    | ok r' =>
      refine absurd ⟨r', ?_⟩ hnone
      rw [foldlM_feed_append hr, foldlM_feed_singleton, hfeed]

theorem failsAtEnd_iff (hs : ∀ l ∈ s, Readable l) :
    (∃ cause, FailsAtEnd s cause) ↔ (∀ before, before <+: s → Viable before) ∧ ¬ Accepts s := by
  have hviable : (∀ before, before <+: s → Viable before) ↔ Viable s :=
    ⟨fun h => h s (List.prefix_refl s), fun h _ hbefore => h.of_isPrefix hbefore⟩
  rw [hviable, viable_iff hs, accepts_iff hs]
  constructor
  · rintro ⟨cause, r, hr, hfail⟩
    refine ⟨⟨r, hr⟩, ?_⟩
    rintro ⟨ts, hts⟩
    unfold ofLexemes at hts
    rw [hr] at hts
    cases hfail.symm.trans hts
  · rintro ⟨⟨r, hr⟩, hnone⟩
    cases hfinish : r.finish with
    | error cause => exact ⟨cause, r, hr, hfinish⟩
    | ok ts =>
      refine absurd ⟨ts, ?_⟩ hnone
      unfold ofLexemes
      rw [hr]
      exact hfinish

/-- **As early as possible.** A reader of infix text fails at a lexeme exactly if the lexemes before it
can go on to an expression, and with it they cannot, whatever comes behind. It fails at the end exactly if
all the lexemes can go on, from any of them, but are no expression as they stand. There is no other way
for a text not to be read; and lexemes that can go on at all can do so with the lexemes of a text. -/
theorem fails_earliest (text : String) :
    (∀ before l after, ofText text = before ++ l :: after →
      ((∃ cause, FailsAt before l cause) ↔ Viable before ∧ ¬ Viable (before ++ [l]))) ∧
    ((∃ cause, FailsAtEnd (ofText text) cause) ↔
      (∀ before, before <+: ofText text → Viable before) ∧ ¬ Accepts (ofText text)) ∧
    (∀ cause, tokens text = .error cause ↔
      (∃ before l after, ofText text = before ++ l :: after ∧ FailsAt before l cause) ∨
        FailsAtEnd (ofText text) cause) ∧
    ∀ before, before <+: ofText text → Viable before →
      ∃ more : String, Accepts (before ++ ofText more) := by
  have hreadable := readable_ofText text
  refine ⟨fun before l after hsplit => ?_, failsAtEnd_iff hreadable, fun _ => ofLexemes_eq_error_iff,
    fun before hbefore => exists_text_of_viable fun l hl => hreadable l (hbefore.subset hl)⟩
  refine failsAt_iff fun m hm => hreadable m ?_
  rw [hsplit, List.append_cons]
  exact List.mem_append_left _ hm

/-- Behind a bar a group cannot be closed, but up to the bar all is well. -/
theorem fails_earliest_bar :
    ofText "(é|)*" = ofText "(é|" ++ ⟨.closeGroup, ⟨4, 5⟩, [')']⟩ :: [⟨.star, ⟨5, 6⟩, ['*']⟩] ∧
      FailsAt (ofText "(é|") ⟨.closeGroup, ⟨4, 5⟩, [')']⟩ (.missingOperand '|' ⟨3, 4⟩) ∧
      Viable (ofText "(é|") ∧ ¬ Viable (ofText "(é|" ++ [⟨.closeGroup, ⟨4, 5⟩, [')']⟩]) ∧
      FailsAtEnd (ofText "(é|") (.missingOperand '|' ⟨3, 4⟩) ∧ ¬ Accepts (ofText "(é|") ∧
      ∃ more : String, Accepts (ofText "(é|" ++ ofText more) := by
  have hsplit : ofText "(é|)*" =
      ofText "(é|" ++ ⟨.closeGroup, ⟨4, 5⟩, [')']⟩ :: [⟨.star, ⟨5, 6⟩, ['*']⟩] := by decide +kernel
  let r : Reader :=
    ⟨#[.literal 'é'], [.operator .union, .group ⟨0, 1⟩], true, some ⟨.bar, ⟨3, 4⟩, ['|']⟩⟩
  have hr : (ofText "(é|").foldlM Reader.feed Reader.start = .ok r := by decide +kernel
  have hat : FailsAt (ofText "(é|") ⟨.closeGroup, ⟨4, 5⟩, [')']⟩ (.missingOperand '|' ⟨3, 4⟩) :=
    ⟨r, hr, rfl⟩
  have hend : FailsAtEnd (ofText "(é|") (.missingOperand '|' ⟨3, 4⟩) := ⟨r, hr, rfl⟩
  obtain ⟨hlexeme, _, _, htext⟩ := fails_earliest "(é|)*"
  obtain ⟨hviable, hnot⟩ := (hlexeme _ _ _ hsplit).1 ⟨_, hat⟩
  obtain ⟨_, hfinish, _, _⟩ := fails_earliest "(é|"
  exact ⟨hsplit, hat, hviable, hnot, hend, (hfinish.1 ⟨_, hend⟩).2,
    htext _ ⟨_, hsplit.symm⟩ hviable⟩

end InfixText

end FiniteAutomata
