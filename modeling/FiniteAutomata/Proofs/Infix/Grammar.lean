import FiniteAutomata.Proofs.Infix.Reading
import FiniteAutomata.Proofs.Lexeme.Kinds
/-!
# Infix text is read by its grammar

The lexemes of a text all mean something (`readable_ofText`), so a reader takes exactly those that
the grammar derives and puts out the listing of the derived expression: `ofLexemes_of_derives` and
`exists_derives_of_ofLexemes`. A listing determines its expression, so a text is at most one
expression (`derives_unique`), and its language is that of its tokens
(`denotes_iff_denote`).

Main statement: `tokens_eq_ok_iff_derives`.
-/

namespace FiniteAutomata

open Grammar

namespace InfixText

theorem readable_ofText (text : String) : ∀ l ∈ Lexeme.ofText text, Readable l := fun _ hl =>
  ⟨(Lexeme.mem_ofText.1 hl).2, (Lexeme.fits_of_mem_ofText hl).exists_symbol⟩

/-! ## Lists of lexemes -/

theorem ofLexemes_nil : ofLexemes [] = .ok [] := rfl

theorem ofLexemes_of_derives {s : List Lexeme} {e : Expression} (hs : ∀ l ∈ s, Readable l)
    (h : Derives .union s e) : ofLexemes s = .ok e.listing := by
  obtain ⟨r, hread, hexpects, hsettle⟩ := reads_of_derives h Reader.start rfl (loose_nil _)
  have hlast : r.last? ≠ none := fun hlast =>
    h.ne_nil ((inStep_start.feedAll hs hread).last hlast)
  have hall : Reader.settleAll r.output r.stack = .ok e.listing.toArray := by
    rw [← Reader.settleAll_settle .union, hsettle]
    simp [Reader.start, Reader.settleAll]
  unfold ofLexemes
  rw [hread]
  show r.finish = .ok e.listing
  unfold Reader.finish
  obtain ⟨l, hl⟩ := Option.ne_none_iff_exists'.1 hlast
  simp only [hl, hexpects, hall]
  rfl

theorem exists_derives_of_ofLexemes {s : List Lexeme} {tokens : List Token}
    (hs : ∀ l ∈ s, Readable l) (hne : s ≠ []) (h : ofLexemes s = .ok tokens) :
    ∃ e, Derives .union s e ∧ e.listing = tokens := by
  unfold ofLexemes at h
  cases hread : s.foldlM Reader.feed Reader.start with
  | error cause =>
    rw [hread] at h
    cases h
  | ok r =>
    rw [hread] at h
    exact (inStep_start.feedAll hs hread).finish h hne

/-! ## Texts -/

theorem tokens_eq_listing_iff {text : String} {e : Expression} :
    tokens text = .ok e.listing ↔ Derives .union (Lexeme.ofText text) e := by
  constructor
  · intro h
    have hne : Lexeme.ofText text ≠ [] := by
      intro hnil
      unfold tokens at h
      rw [hnil, ofLexemes_nil] at h
      exact e.listing_ne_nil (Except.ok.inj h).symm
    obtain ⟨f, hf, hlisting⟩ := exists_derives_of_ofLexemes (readable_ofText text) hne h
    rwa [Expression.listing_inj hlisting] at hf
  · exact ofLexemes_of_derives (readable_ofText text)

theorem derives_unique {text : String} {e f : Expression}
    (he : Derives .union (Lexeme.ofText text) e) (hf : Derives .union (Lexeme.ofText text) f) :
    e = f := by
  have h := (tokens_eq_listing_iff.2 he).symm.trans (tokens_eq_listing_iff.2 hf)
  exact Expression.listing_inj (Except.ok.inj h)

theorem tokens_eq_nil_iff {text : String} : tokens text = .ok [] ↔ Lexeme.ofText text = [] := by
  constructor
  · intro h
    by_cases hnil : Lexeme.ofText text = []
    · exact hnil
    · obtain ⟨e, _, hlisting⟩ := exists_derives_of_ofLexemes (readable_ofText text) hnil h
      exact absurd hlisting e.listing_ne_nil
  · intro h
    unfold tokens
    rw [h, ofLexemes_nil]

/-- The tokens of a text are none for a text without lexemes, and else list its expression. -/
theorem tokens_eq_ok_iff {text : String} {ts : List Token} :
    tokens text = .ok ts ↔ (Lexeme.ofText text = [] ∧ ts = []) ∨
      ∃ e, Derives .union (Lexeme.ofText text) e ∧ e.listing = ts := by
  constructor
  · intro h
    by_cases hnil : Lexeme.ofText text = []
    · rw [tokens_eq_nil_iff.2 hnil] at h
      exact Or.inl ⟨hnil, (Except.ok.inj h).symm⟩
    · exact Or.inr (exists_derives_of_ofLexemes (readable_ofText text) hnil h)
  · rintro (⟨hnil, rfl⟩ | ⟨e, he, rfl⟩)
    · exact tokens_eq_nil_iff.2 hnil
    · exact tokens_eq_listing_iff.2 he

/-- The language of a text is that of its tokens. -/
theorem denotes_iff_denote {text : String} {ts : List Token} (h : tokens text = .ok ts)
    (word : List Char) : Grammar.Denotes text word ↔ Token.Denote ts word := by
  unfold Grammar.Denotes Token.Denote
  refine or_congr ?_ (exists_congr fun e => and_congr_left fun _ => ?_)
  · rw [← tokens_eq_nil_iff, h, Except.ok.injEq]
  · rw [← tokens_eq_listing_iff, h, Except.ok.injEq, eq_comm]

/-- **The grammar of infix text.** A text without lexemes has no tokens. Any other has tokens exactly
if the grammar derives its lexemes, and they list the derived expression; whatever the grammar does
not derive is refused. -/
theorem tokens_eq_ok_iff_derives (text : String) :
    (∀ ts, tokens text = .ok ts ↔ (Lexeme.ofText text = [] ∧ ts = []) ∨
      ∃ e, Derives .union (Lexeme.ofText text) e ∧ e.listing = ts) ∧
    ((∃ cause, tokens text = .error cause) ↔
      Lexeme.ofText text ≠ [] ∧ ∀ e, ¬ Derives .union (Lexeme.ofText text) e) := by
  refine ⟨fun ts => tokens_eq_ok_iff, ?_⟩
  constructor
  · rintro ⟨cause, h⟩
    refine ⟨fun hnil => ?_, fun e he => ?_⟩
    · rw [tokens_eq_nil_iff.2 hnil] at h
      cases h
    · rw [tokens_eq_listing_iff.2 he] at h
      cases h
  · rintro ⟨hne, hnone⟩
    cases h : tokens text with
    | error cause => exact ⟨cause, rfl⟩
    | ok ts =>
      rcases tokens_eq_ok_iff.1 h with ⟨hnil, _⟩ | ⟨e, he, _⟩
      · exact absurd hnil hne
      · exact absurd he (hnone e)

end InfixText

end FiniteAutomata
