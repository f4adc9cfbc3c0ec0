import FiniteAutomata.PostfixText
import FiniteAutomata.Proofs.Infix.Blame
import FiniteAutomata.Proofs.Lexeme.Backslashes
/-!
# Escapes that lack their character

Postfix text is cut by its reader into the same pieces as infix text, so it fails exactly at a piece
that is a backslash alone (`PostfixText.readFrom_eq_error_iff_scan`). A reader of infix text takes no
such piece either, but may fail for another cause before it comes to it.

Main statement: both readers agree on the texts that end in a backslash without its character
(`dangling_escape`).
-/

namespace FiniteAutomata

open Lexeme

/-! ## Postfix text -/

namespace PostfixText

/-- **Pieces.** Postfix text fails at the backslash that is a piece by itself. -/
theorem readFrom_eq_error_iff_scan {offset : Nat} {text : List Char} {cause : SyntaxError} :
    readFrom offset text = .error cause ↔
      ∃ l ∈ scan offset text, l.kind = .backslash ∧ cause = .trailingEscape l.span := by
  induction offset, text using readFrom.induct with
  | case1 offset =>
    constructor
    · intro h
      cases h
    · rintro ⟨l, hl, _⟩
      cases hl
  | case2 offset =>
    constructor
    · intro h
      cases h
      exact ⟨_, List.mem_singleton_self _, rfl, rfl⟩
    · rintro ⟨l, hl, _, rfl⟩
      cases List.mem_singleton.1 hl
      rfl
  | case3 offset c rest ih =>
    have hok : ∀ tokens : List Token, ∃ tokens',
        (pure (.literal c :: tokens) : Except SyntaxError (List Token)) = .ok tokens' :=
      fun _ => ⟨_, rfl⟩
    rw [readFrom, bind_eq_error_iff hok, ih, scan]
    simp only [List.exists_mem_cons_iff, reduceCtorEq, false_and, false_or]
  | case4 offset c rest hc hc' ih =>
    have hkind : LexemeKind.ofChar c ≠ .backslash := by
      intro hkind
      have hbackslash := eq_of_ofChar_eq_backslash hkind
      cases rest with
      | nil => exact hc hbackslash rfl
      | cons d rest => exact hc' d rest hbackslash rfl
    have hok : ∀ tokens : List Token, ∃ tokens', (if CodePoints.whiteSpace.contains c = true then
        pure tokens else pure ((Token.ofOperator? c).getD (.literal c) :: tokens) :
          Except SyntaxError (List Token)) = .ok tokens' := by
      intro tokens
      split
      · exact ⟨_, rfl⟩
      · exact ⟨_, rfl⟩
    rw [readFrom.eq_4 offset c rest hc hc', bind_eq_error_iff hok, ih, scan.eq_3 offset c rest hc']
    simp only [List.exists_mem_cons_iff, hkind, false_and, false_or]

/-- **Postfix text** fails exactly if it ends in an odd number of backslashes, at its last byte. -/
theorem read_eq_error_iff {text : String} {cause : SyntaxError} :
    read text = .error cause ↔
      Odd (trailingBackslashes text.toList) ∧ cause = .trailingEscape (lastByte text.toList) := by
  have htiles := tiles_scan 0 text.toList
  have hfits := fits_scan 0 text.toList
  unfold read
  rw [readFrom_eq_error_iff_scan, htiles.odd_trailingBackslashes_iff hfits]
  have hspan : ∀ l ∈ scan 0 text.toList, l.kind = .backslash → l.span = lastByte text.toList := by
    intro l hl hkind
    obtain ⟨_, _, _, hspan, _⟩ := htiles.exists_concat_of_backslash hfits hl hkind
    rwa [Nat.zero_add] at hspan
  constructor
  · rintro ⟨l, hl, hkind, rfl⟩
    exact ⟨⟨l, hl, hkind⟩, by rw [hspan l hl hkind]⟩
  · rintro ⟨⟨l, hl, hkind⟩, rfl⟩
    exact ⟨l, hl, hkind, by rw [hspan l hl hkind]⟩

end PostfixText

/-! ## Both readers -/

theorem InfixText.exists_error_of_odd {text : String} (h : Odd (trailingBackslashes text.toList)) :
    ∃ cause, tokens text = .error cause := by
  obtain ⟨l, hl, hkind⟩ := odd_trailingBackslashes_iff_exists_mem_ofText.1 h
  cases htokens : tokens text with
  | error cause => exact ⟨cause, rfl⟩
  | ok ts =>
    -- no reader takes the backslash, whatever it took before
    unfold tokens ofLexemes at htokens
    obtain ⟨r, hr, _⟩ := exists_of_bind_eq_ok htokens
    obtain ⟨r', r'', hfeed⟩ := exists_of_foldlM_eq_ok hr hl
    unfold Reader.feed at hfeed
    rw [hkind] at hfeed
    cases hfeed

/-- **Dangling escapes.** Postfix text is not read exactly if it ends in an odd number of backslashes,
and then for its last byte. Infix text that ends so is not read either, and if a backslash that lacks
its character is the cause why it is not read, then it ends so and the cause is at its last byte. -/
theorem dangling_escape (text : String) :
    (∀ cause, PostfixText.read text = .error cause ↔
      Odd (trailingBackslashes text.toList) ∧ cause = .trailingEscape (lastByte text.toList)) ∧
    (Odd (trailingBackslashes text.toList) → ∃ cause, InfixText.tokens text = .error cause) ∧
    ∀ span, InfixText.tokens text = .error (.trailingEscape span) →
      Odd (trailingBackslashes text.toList) ∧ span = lastByte text.toList := by
  refine ⟨fun cause => PostfixText.read_eq_error_iff, InfixText.exists_error_of_odd, fun span h => ?_⟩
  have hblames := InfixText.blames_of_ofLexemes (fun l hl => (mem_ofText.1 hl).2) h
  cases hblames with
  | @trailingEscape l mem isBackslash =>
    exact ⟨odd_trailingBackslashes_iff_exists_mem_ofText.2 ⟨l, mem, isBackslash⟩,
      span_of_backslash mem isBackslash⟩

/-- Of three backslashes behind a character of two bytes the last one dangles. -/
theorem dangling_escape_third :
    Odd (trailingBackslashes "é\\\\\\".toList) ∧
      PostfixText.read "é\\\\\\" = .error (.trailingEscape ⟨4, 5⟩) ∧
      (∃ cause, InfixText.tokens "é\\\\\\" = .error cause) ∧
      InfixText.tokens "é\\\\\\" = .error (.trailingEscape ⟨4, 5⟩) ∧
      lastByte "é\\\\\\".toList = ⟨4, 5⟩ := by
  obtain ⟨hread, hinfix, hspan⟩ := dangling_escape "é\\\\\\"
  have hodd : Odd (trailingBackslashes "é\\\\\\".toList) := by decide
  have htokens : InfixText.tokens "é\\\\\\" = .error (.trailingEscape ⟨4, 5⟩) := by decide
  exact ⟨hodd, (hread _).2 ⟨hodd, rfl⟩, hinfix hodd, htokens, (hspan _ htokens).2.symm⟩

end FiniteAutomata
