import FiniteAutomata.Proofs.Infix.Blame
import FiniteAutomata.Proofs.Lexeme.Backslashes
import FiniteAutomata.Proofs.Lexeme.Cover
import FiniteAutomata.Snippet.Line
/-!
# What the causes of failure say of the text

The causes for which an infix text is not read blame lexemes (`Blames`). Here they are read off the
text: which characters the span of a cause cuts out, and what stands around them. A lexeme of junk, for
one, is a run of characters that no expression can hold, and it cannot be made longer on either side
(`isRun_of_junk`).

Main statement: `holdsOf_of_error`.
-/

namespace FiniteAutomata

open Lexeme InfixText

variable {l m : Lexeme} {before after : List Lexeme} {text : String} {cause : SyntaxError}

/-! ## Runs of junk -/

/-- The character `c` behind `front` is no part of an expression: it means nothing, and no backslash
before it makes it a symbol. -/
def Unrecognised (front : List Char) (c : Char) : Prop :=
  MeansNothing c ∧ ¬ Odd (trailingBackslashes front)

/-- All of `run` is unrecognised, and neither the character before it nor the one behind it is. -/
structure IsRun (front run back : List Char) : Prop where
  inside : ∀ before c after, run = before ++ c :: after → Unrecognised (front ++ before) c
  left : ∀ before c, front = before ++ [c] → ¬ Unrecognised before c
  right : ∀ c after, back = c :: after → ¬ Unrecognised (front ++ run) c

theorem isRun_of_junk {stop : Nat} (hbefore : ∀ m ∈ before, m.Fits stop ∧ m.kind ≠ .backslash)
    (hl : l.Fits stop) (hjunk : l.kind = .junk) (hafter : ∀ m ∈ after, m.Fits stop)
    (hleft : ∀ m ∈ before.getLast?, m.kind ≠ .junk) (hright : ∀ m ∈ after.head?, m.kind ≠ .junk) :
    IsRun (before.flatMap Lexeme.text) l.text (after.flatMap Lexeme.text) := by
  have heven := not_odd_trailingBackslashes hbefore
  obtain ⟨_, hnothing⟩ := hl.of_kind hjunk
  constructor
  case inside =>
    rintro init c rest htext
    refine ⟨hnothing c (by simp [htext]), ?_⟩
    cases init using List.reverseRecOn with
    | nil => rwa [List.append_nil]
    | append_singleton init d =>
      have hd : d ≠ '\\' := by
        rintro rfl
        exact absurd (hnothing '\\' (by simp [htext])) (by decide)
      rw [← List.append_assoc, trailingBackslashes_concat hd]
      decide
  case left =>
    intro init c htext hunrecognised
    cases before using List.reverseRecOn with
    | nil => exact absurd htext.symm (List.append_ne_nil_of_right_ne_nil _ (List.cons_ne_nil _ _))
    | append_singleton before m =>
      rw [List.flatMap_append, List.flatMap_singleton] at htext
      have hm := hleft m (by simp)
      rcases (hbefore m (by simp)).1.single_or_escape hm with ⟨d, hd, hmeans, _⟩ | ⟨d, hd⟩
      · rw [hd] at htext
        obtain ⟨_, hcd⟩ := List.append_inj' htext rfl
        exact hmeans (List.singleton_inj.1 hcd ▸ hunrecognised.1)
      · -- the character before the run belongs to the backslash before it
        rw [hd, show ['\\', d] = ['\\'] ++ [d] from rfl, ← List.append_assoc] at htext
        obtain ⟨hinit, _⟩ := List.append_inj' htext rfl
        refine hunrecognised.2 ?_
        rw [← hinit, odd_trailingBackslashes_concat]
        exact not_odd_trailingBackslashes fun p hp => hbefore p (List.mem_append_left _ hp)
  case right =>
    intro c rest htext hunrecognised
    cases after with
    | nil => cases htext
    | cons m after =>
      rw [List.flatMap_cons] at htext
      have hm := hright m rfl
      rcases (hafter m List.mem_cons_self).single_or_escape hm with ⟨d, hd, hmeans, _⟩ | ⟨d, hd⟩
      · rw [hd] at htext
        exact hmeans ((List.cons.inj htext).1 ▸ hunrecognised.1)
      · rw [hd] at htext
        exact absurd hunrecognised.1 ((List.cons.inj htext).1 ▸ by decide)

/-- **Junk** of a text is a whole run of it. -/
theorem exists_isRun_of_junk (hl : l ∈ ofText text) (hjunk : l.kind = .junk) :
    ∃ front back, text.toList = front ++ l.text ++ back ∧
      l.span = ⟨byteLength front, byteLength (front ++ l.text)⟩ ∧ IsRun front l.text back := by
  have htiles := tiles_ofText text
  have hfits := fits_pieces text
  have hchain := isChain_joinJunk (scan 0 text.toList)
  obtain ⟨before, after, hsplit⟩ := List.append_of_mem (mem_ofText.1 hl).1
  rw [hsplit] at htiles hfits hchain
  obtain ⟨htext, hstart, hstop, _⟩ := htiles.split
  rw [Nat.zero_add] at hstart hstop
  refine ⟨_, _, htext, by rw [← hstart, ← hstop], ?_⟩
  obtain ⟨_, hright, hleft⟩ := List.isChain_append.1 hchain
  have hbefore : ∀ m ∈ before, m.kind ≠ .backslash := htiles.kind_ne_backslash hfits
  refine isRun_of_junk (fun m hm => ⟨hfits m (by simp [hm]), hbefore m hm⟩) (hfits l (by simp)) hjunk
    (fun m hm => hfits m (by simp [hm])) (fun m hm hk => hleft m hm l rfl ⟨hk, hjunk⟩)
    (fun m hm hk => (List.isChain_cons.1 hright).1 m hm ⟨hjunk, hk⟩)

/-! ## Neighbours -/

/-- Between two lexemes that follow each other is nothing but white space. -/
theorem exists_blank_between (h : ofText text = before ++ l :: m :: after) :
    ∃ gap, slice? text.toList ⟨l.span.start, m.span.stop⟩ = some (l.text ++ gap ++ m.text) ∧
      ∀ c ∈ gap, CodePoints.whiteSpace.contains c = true := by
  have htiles := tiles_ofText text
  have hfits := fits_pieces text
  unfold ofText at h
  obtain ⟨before', rest, hsplit, _, hrest⟩ := List.filter_eq_append_iff.1 h
  obtain ⟨skipped, rest', rfl, _, _, hrest'⟩ := List.filter_eq_cons_iff.1 hrest
  obtain ⟨blanks, after', rfl, hblanks, _, _⟩ := List.filter_eq_cons_iff.1 hrest'
  rw [hsplit] at htiles hfits
  have hl : Tiles 0 ((before' ++ skipped) ++ l :: (blanks ++ m :: after')) text.toList := by
    simpa using htiles
  have hm : Tiles 0 ((before' ++ skipped ++ l :: blanks) ++ m :: after') text.toList := by
    simpa using htiles
  obtain ⟨_, hstart, _⟩ := hl.split
  obtain ⟨htext, _, hstop, _⟩ := hm.split
  refine ⟨blanks.flatMap Lexeme.text, slice?_eq_some_iff.2
    ⟨(before' ++ skipped).flatMap Lexeme.text, after'.flatMap Lexeme.text, ?_, ?_, ?_⟩, ?_⟩
  · rw [htext]
    simp
  · rw [← Nat.zero_add (byteLength _)]
    exact hstart
  · rw [← Nat.zero_add (byteLength _)]
    simpa using hstop
  · intro c hc
    obtain ⟨b, hb, hcb⟩ := List.mem_flatMap.1 hc
    have hkind : b.kind = .blank := by simpa [LexemeKind.isTrivia] using hblanks b hb
    obtain ⟨d, hd, hblank⟩ := (hfits b (by simp [hb])).of_kind hkind
    rw [hd, List.mem_singleton] at hcb
    rwa [hcb]

/-! ## Causes -/

/-- What the cause says is so of the text. -/
def SyntaxError.HoldsOf (text : String) : SyntaxError → Prop
  | .missingOperand op span =>
    slice? text.toList span = some [op] ∧ op ∈ ['|', '.', '*', '+', '?'] ∧
      ∃ l ∈ ofText text, l.kind.IsOperator ∧ l.span = span
  | .unopenedGroup span =>
    slice? text.toList span = some [')'] ∧
      ∃ before l after, ofText text = before ++ l :: after ∧ l.kind = .closeGroup ∧ l.span = span ∧
        openGroups before = []
  | .emptyGroup span =>
    (∃ gap, slice? text.toList span = some ('(' :: gap ++ [')']) ∧
      ∀ c ∈ gap, CodePoints.whiteSpace.contains c = true) ∧
      ∃ before l m after, ofText text = before ++ l :: m :: after ∧ l.kind = .openGroup ∧
        m.kind = .closeGroup ∧ span = ⟨l.span.start, m.span.stop⟩
  | .unclosedGroup span =>
    slice? text.toList span = some ['('] ∧ (openGroups (ofText text)).head? = some span
  | .unexpectedChar first span =>
    ∃ front run back, text.toList = front ++ run ++ back ∧
      span = ⟨byteLength front, byteLength (front ++ run)⟩ ∧ run.head? = some first ∧
      IsRun front run back
  | .trailingEscape span =>
    slice? text.toList span = some ['\\'] ∧ span.stop = byteLength text.toList

theorem Lexeme.Fits.text_of_isOperator {stop : Nat} (h : l.Fits stop) (hkind : l.kind.IsOperator) :
    l.text = [l.first] ∧ l.first ∈ ['|', '.', '*', '+', '?'] := by
  unfold Fits at h
  cases hk : l.kind <;> rw [hk] at h hkind
  case bar | dot | star | plus | question =>
    unfold Lexeme.first
    rw [h]
    decide
  all_goals exact absurd hkind (by decide)

theorem holdsOf_of_blames (h : Blames (ofText text) cause) : cause.HoldsOf text := by
  have hslice : ∀ {l}, l ∈ ofText text → slice? text.toList l.span = some l.text :=
    slice?_of_mem_ofText
  have hfits : ∀ {l}, l ∈ ofText text → l.Fits (byteLength text.toList) := fits_of_mem_ofText
  cases h with
  | @missingOperand l mem isOperator =>
    obtain ⟨htext, hsign⟩ := (hfits mem).text_of_isOperator isOperator
    exact ⟨htext ▸ hslice mem, hsign, l, mem, isOperator, rfl⟩
  | @unopenedGroup before after l split isClosing noneOpen =>
    have mem : l ∈ ofText text := by simp [split]
    have htext : l.text = [')'] := (hfits mem).of_kind isClosing
    exact ⟨htext ▸ hslice mem, before, l, after, split, isClosing, rfl, noneOpen⟩
  | @emptyGroup before after l m split isOpening isClosing =>
    obtain ⟨gap, hgap, hblank⟩ := exists_blank_between split
    have hl : l.text = ['('] := (hfits (by simp [split])).of_kind isOpening
    have hm : m.text = [')'] := (hfits (by simp [split])).of_kind isClosing
    rw [hl, hm] at hgap
    exact ⟨⟨gap, hgap, hblank⟩, before, l, m, after, split, isOpening, isClosing, rfl⟩
  | @unclosedGroup span innermost =>
    obtain ⟨l, mem, isOpening, rfl⟩ := exists_of_mem_openGroups (List.mem_of_head? innermost)
    have htext : l.text = ['('] := (hfits mem).of_kind isOpening
    exact ⟨htext ▸ hslice mem, innermost⟩
  | @unexpectedChar l mem isJunk =>
    obtain ⟨front, back, htext, hspan, hrun⟩ := exists_isRun_of_junk mem isJunk
    refine ⟨front, l.text, back, htext, hspan, ?_, hrun⟩
    obtain ⟨c, rest, hcons⟩ := List.exists_cons_of_ne_nil ((hfits mem).of_kind isJunk).1
    unfold Lexeme.first
    rw [hcons]
    rfl
  | @trailingEscape l mem isBackslash =>
    obtain ⟨htext, hstop⟩ := (hfits mem).of_kind isBackslash
    exact ⟨htext ▸ hslice mem, hstop⟩

theorem exists_slice_of_holdsOf (h : cause.HoldsOf text) :
    ∃ piece, slice? text.toList cause.span = some piece ∧ piece ≠ [] := by
  cases cause with
  | missingOperand op span => exact ⟨_, h.1, List.cons_ne_nil _ _⟩
  | unopenedGroup span => exact ⟨_, h.1, List.cons_ne_nil _ _⟩
  | emptyGroup span =>
    obtain ⟨⟨gap, hgap, _⟩, _⟩ := h
    exact ⟨_, hgap, List.cons_ne_nil _ _⟩
  | unclosedGroup span => exact ⟨_, h.1, List.cons_ne_nil _ _⟩
  | unexpectedChar first span =>
    obtain ⟨front, run, back, htext, hspan, hfirst, _⟩ := h
    refine ⟨run, slice?_eq_some_iff.2 ⟨front, back, htext, ?_, ?_⟩, ?_⟩
    · exact congrArg Span.start hspan
    · exact congrArg Span.stop hspan
    · rintro rfl
      cases hfirst
  | trailingEscape span => exact ⟨_, h.1, List.cons_ne_nil _ _⟩

/-- A span that cuts out some characters lies in the text and is not empty. -/
theorem lt_stop_of_slice? {chars piece : List Char} {span : Span}
    (h : slice? chars span = some piece) (hne : piece ≠ []) :
    span.start < span.stop ∧ span.stop ≤ byteLength chars := by
  obtain ⟨front, back, rfl, hstart, hstop⟩ := slice?_eq_some_iff.1 h
  have hpos := byteLength_pos hne
  rw [byteLength_append] at hstop
  rw [byteLength_append, byteLength_append]
  omega

theorem Snippet.adjust_eq_self {span : Span} {limit : Nat} (hlt : span.start < span.stop)
    (hle : span.stop ≤ limit) : adjust span limit = span := by
  unfold adjust
  rw [Nat.min_eq_left hle, Nat.min_eq_left (by omega), if_neg (by omega)]

/-- **Causes hold.** If an infix text is not read, the span of the cause is a part of the text that is
not empty and ends on character boundaries, so it is shown as it is, and what the cause says is so:
an operator without an operand is the one that is blamed; a `)` is blamed where no group is open; an
empty group has only white space inside; a `(` is blamed if its group is the innermost one open at the
end; unexpected characters are a whole run of characters that no expression can hold; a backslash
without its character is the last character. -/
theorem holdsOf_of_error (h : tokens text = .error cause) :
    cause.span.start < cause.span.stop ∧ cause.span.stop ≤ byteLength text.toList ∧
      (∃ piece, slice? text.toList cause.span = some piece) ∧
      Snippet.adjust cause.span (byteLength text.toList) = cause.span ∧ cause.HoldsOf text := by
  have hholds := holdsOf_of_blames (blames_of_ofLexemes (fun l hl => (mem_ofText.1 hl).2) h)
  obtain ⟨piece, hpiece, hne⟩ := exists_slice_of_holdsOf hholds
  obtain ⟨hlt, hle⟩ := lt_stop_of_slice? hpiece hne
  exact ⟨hlt, hle, ⟨piece, hpiece⟩, Snippet.adjust_eq_self hlt hle, hholds⟩

/-- A group with a wide blank inside, and junk behind an escape of the same character. -/
theorem holdsOf_of_error_blank :
    tokens "é(\u2003)" = .error (.emptyGroup ⟨2, 7⟩) ∧
      (SyntaxError.emptyGroup ⟨2, 7⟩).HoldsOf "é(\u2003)" ∧
      tokens "\\###a" = .error (.unexpectedChar '#' ⟨2, 4⟩) ∧
      (SyntaxError.unexpectedChar '#' ⟨2, 4⟩).HoldsOf "\\###a" := by
  have hgroup : tokens "é(\u2003)" = .error (.emptyGroup ⟨2, 7⟩) := by decide +kernel
  have hjunk : tokens "\\###a" = .error (.unexpectedChar '#' ⟨2, 4⟩) := by decide
  exact ⟨hgroup, (holdsOf_of_error hgroup).2.2.2.2, hjunk, (holdsOf_of_error hjunk).2.2.2.2⟩

end FiniteAutomata
