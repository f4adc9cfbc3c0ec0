import FiniteAutomata.CommandLine.Session
import FiniteAutomata.Proofs.DanglingEscape
import FiniteAutomata.Proofs.Faultless
import FiniteAutomata.Proofs.Lexeme.Append
import FiniteAutomata.Proofs.PostfixText
/-!
# Expressions in files

The text of a file ends before the line breaks at its end, however many they are, and line breaks are white
space: they mean nothing, neither in infix text nor in postfix text (`Source.reading_append_blanks`). One of
them alone can mean something, the first one, if a backslash makes it a symbol. Without it the backslash
lacks its character, and no reader takes it (`Source.LosesSymbol`). But for that, an expression in a file
makes what it makes when it is given inline.

Main statement: `Source.pattern_of_file`.
-/

namespace FiniteAutomata

open Lexeme

variable {front back : List Char} {ts : List Token} {offset : Nat} {span : Span}

/-! ## White space behind a text -/

theorem PostfixText.readFrom_append_blanks
    (hback : ∀ c ∈ back, CodePoints.whiteSpace.contains c = true)
    (h : readFrom offset front = .ok ts) : readFrom offset (front ++ back) = .ok ts := by
  induction offset, front using readFrom.induct generalizing ts with
  | case1 offset =>
    have hnil : Reads [] [] := fun _ => rfl
    rw [← Except.ok.inj h]
    simpa using hnil.skip hback offset
  | case2 offset => cases h
  | case3 offset c rest ih =>
    rw [readFrom] at h
    obtain ⟨rest', hrest, h⟩ := exists_of_bind_eq_ok h
    rw [List.cons_append, List.cons_append, readFrom, ih hrest]
    exact h
  | case4 offset c rest hc hc' ih =>
    rw [readFrom.eq_4 offset c rest hc hc'] at h
    obtain ⟨rest', hrest, h⟩ := exists_of_bind_eq_ok h
    have hne : c ≠ '\\' := by
      intro hbackslash
      cases rest with
      | nil => exact hc hbackslash rfl
      | cons d rest => exact hc' d rest hbackslash rfl
    rw [List.cons_append, readFrom.eq_4 offset c (rest ++ back) (fun hb _ => hne hb) fun _ _ hb _ => hne hb,
      ih hrest]
    exact h

/-- A text that lacks no character behind a backslash is not said to. -/
theorem InfixText.tokens_ne_trailingEscape {text : String} (h : ¬ Odd (trailingBackslashes text.toList)) :
    tokens text ≠ .error (.trailingEscape span) := by
  intro herror
  have hblames := blames_of_ofLexemes (fun l hl => (mem_ofText.1 hl).2) herror
  cases hblames with
  | trailingEscape mem isBackslash =>
    exact h (odd_trailingBackslashes_iff_exists_mem_ofText.2 ⟨_, mem, isBackslash⟩)

/-- Where a backslash at the end lacks its character, either that is the cause why the text is not read, or
there is a cause before it. -/
theorem InfixText.tokens_dangling {c : Char} (hfront : ¬ Odd (trailingBackslashes front))
    (hback : ∀ c ∈ back, CodePoints.whiteSpace.contains c = true) :
    tokens (String.ofList (front ++ ['\\'])) = tokens (String.ofList (front ++ '\\' :: c :: back)) ∨
      ∃ span, tokens (String.ofList (front ++ ['\\'])) = .error (.trailingEscape span) := by
  obtain ⟨before, dangling, escape, hdangling, hescape, hkind⟩ :=
    exists_ofText_dangling (c := c) hfront hback
  unfold tokens ofLexemes
  rw [hdangling, hescape, List.foldlM_append, List.foldlM_append]
  cases before.foldlM Reader.feed Reader.start with
  | error cause => exact Or.inl rfl
  | ok r =>
    have hfeed : r.feed dangling = .error (.trailingEscape dangling.span) := by
      unfold Reader.feed
      rw [hkind]
    refine Or.inr ⟨dangling.span, ?_⟩
    show ([dangling].foldlM Reader.feed r >>= fun r => r.finish) = _
    rw [List.foldlM_cons, hfeed]
    rfl

namespace CommandLine.Source

variable {source : Source} {c path : String} {contents : String → Except FileError ByteArray}
  {isPostfix : Bool}

/-! ## Reading and making -/

/-- The tokens of an expression text. -/
def reading (source : Source) (text : String) : Except SyntaxError (List Token) :=
  if source.isPostfix then PostfixText.read text else InfixText.tokens text

theorem pattern_eq (source : Source) (text : String) :
    source.pattern text = (do Pattern.ofTokens (← (source.reading text).mapError .text)) := by
  unfold pattern reading
  split <;> rfl

/-- A text that is not read makes no pattern, for the same cause, and for such a cause no other text. -/
theorem pattern_eq_error_iff {text : String} {cause : SyntaxError} :
    source.pattern text = .error (.text cause) ↔ source.reading text = .error cause := by
  rw [pattern_eq]
  cases source.reading text with
  | error cause' =>
    constructor
    · intro h
      cases h
      rfl
    · intro h
      cases h
      rfl
  | ok tokens =>
    refine ⟨fun h => ?_, fun h => by cases h⟩
    cases hnfa : Nfa.ofTokens tokens with
    | ok nfa =>
      obtain ⟨p, hp, _⟩ := Pattern.exists_of_nfa hnfa
      cases hp.symm.trans h
    | error error =>
      obtain ⟨_, _, _, rfl⟩ := Nfa.exists_malformed_of_error hnfa
      have hmalformed : Pattern.ofTokens tokens = .error (.text cause) := h
      unfold Pattern.ofTokens at hmalformed
      rw [hnfa] at hmalformed
      cases hmalformed

theorem reading_ne_trailingEscape (h : ¬ Odd (trailingBackslashes c.toList)) :
    source.reading c ≠ .error (.trailingEscape span) := by
  unfold reading
  split
  · exact fun herror => h (PostfixText.read_eq_error_iff.1 herror).1
  · exact InfixText.tokens_ne_trailingEscape h

/-- White space behind a text means nothing, unless a backslash at its end lacks its character; then either
that is the cause why the text is not read, or there is a cause before it. -/
theorem reading_append_blanks (hback : ∀ c ∈ back, CodePoints.whiteSpace.contains c = true) :
    source.reading (String.ofList front) = source.reading (String.ofList (front ++ back)) ∨
      ∃ span, source.reading (String.ofList front) = .error (.trailingEscape span) := by
  unfold reading
  split
  · cases hread : PostfixText.read (String.ofList front) with
    | error cause =>
      obtain ⟨_, rfl⟩ := PostfixText.read_eq_error_iff.1 hread
      exact Or.inr ⟨_, rfl⟩
    | ok tokens =>
      refine Or.inl ?_
      unfold PostfixText.read at hread ⊢
      rw [String.toList_ofList] at hread ⊢
      rw [PostfixText.readFrom_append_blanks hback hread]
  · by_cases hodd : Odd (trailingBackslashes front)
    · obtain ⟨init, rfl, hinit⟩ := exists_of_odd_trailingBackslashes hodd
      cases back with
      | nil => exact Or.inl (by rw [List.append_nil])
      | cons b back =>
        rw [List.append_assoc]
        exact InfixText.tokens_dangling hinit (List.forall_mem_cons.1 hback).2
    · refine Or.inl ?_
      unfold InfixText.tokens
      rw [ofText_append_blanks hodd hback]

/-! ## Line breaks at the end -/

theorem decode_toUTF8 (text : String) : decode text.toUTF8 = .ok text := by
  unfold decode String.fromUTF8?
  rw [String.toUTF8_eq_toByteArray, dif_pos text.isValidUTF8]
  rfl

theorem whiteSpace_of_isLineBreak {b : Char} (h : isLineBreak b = true) :
    CodePoints.whiteSpace.contains b = true := by
  unfold isLineBreak at h
  rw [Bool.or_eq_true, decide_eq_true_eq, decide_eq_true_eq] at h
  rcases h with rfl | rfl
  · decide
  · decide

theorem dropLineBreaks_append {breaks : String} (hbreaks : ∀ b ∈ breaks.toList, isLineBreak b = true) :
    dropLineBreaks (c ++ breaks) = dropLineBreaks c := by
  unfold dropLineBreaks
  rw [String.toList_append, List.reverse_append,
    List.dropWhile_append_of_pos fun b hb => hbreaks b (List.mem_reverse.1 hb)]

theorem dropLineBreaks_eq_self (hlast : ∀ b ∈ c.toList.getLast?, isLineBreak b = false) :
    dropLineBreaks c = c := by
  unfold dropLineBreaks
  have hkept : c.toList.reverse.dropWhile isLineBreak = c.toList.reverse := by
    rw [← List.head?_reverse] at hlast
    cases hrev : c.toList.reverse with
    | nil => rfl
    | cons b rest =>
      rw [hrev] at hlast
      rw [List.dropWhile_cons_of_neg]
      exact Bool.eq_false_iff.1 (hlast b rfl)
  rw [hkept, List.reverse_reverse, String.ofList_toList]

theorem exists_append_of_dropLineBreaks (c : String) :
    ∃ breaks, c.toList = (dropLineBreaks c).toList ++ breaks ∧ ∀ b ∈ breaks, isLineBreak b = true := by
  refine ⟨(c.toList.reverse.takeWhile isLineBreak).reverse, ?_, fun b hb => ?_⟩
  · unfold dropLineBreaks
    rw [String.toList_ofList, ← List.reverse_append, List.takeWhile_append_dropWhile, List.reverse_reverse]
  · exact List.all_eq_true.1 List.all_takeWhile b (List.mem_reverse.1 hb)

theorem text_of_file {breaks : String} (hcontent : contents path = .ok (c ++ breaks).toUTF8)
    (hbreaks : ∀ b ∈ breaks.toList, isLineBreak b = true) :
    (⟨none, some path, isPostfix⟩ : Source).text contents = .ok (dropLineBreaks c) := by
  have hdecode : contents path >>= decode = .ok (c ++ breaks) := by
    rw [hcontent]
    exact decode_toUTF8 _
  unfold text
  simp only [hdecode]
  rw [dropLineBreaks_append hbreaks]

/-- A line break at the end of the text is dropped that a backslash makes a symbol, and no reader meets
another obstacle before it. -/
def LosesSymbol (source : Source) (c : String) : Prop :=
  dropLineBreaks c ≠ c ∧ ∃ span, source.reading (dropLineBreaks c) = .error (.trailingEscape span)

/-- **Dropping line breaks** changes what is made of a text only if a symbol is lost. -/
theorem pattern_dropLineBreaks_iff :
    source.pattern (dropLineBreaks c) = source.pattern c ↔ ¬ source.LosesSymbol c := by
  obtain ⟨breaks, hc, hbreaks⟩ := exists_append_of_dropLineBreaks c
  have hblanks : ∀ b ∈ breaks, CodePoints.whiteSpace.contains b = true :=
    fun b hb => whiteSpace_of_isLineBreak (hbreaks b hb)
  constructor
  · rintro h ⟨hne, span, hspan⟩
    -- the whole text ends in a line break, so no backslash at its end lacks its character
    have hend : ¬ Odd (trailingBackslashes c.toList) := by
      rcases List.eq_nil_or_concat breaks with rfl | ⟨init, b, rfl⟩
      · exact absurd (String.toList_inj.1 (by rw [hc, List.append_nil])) hne
      · have hb : b ≠ '\\' := by
          rintro rfl
          exact absurd (hbreaks '\\' (by simp)) (by decide)
        rw [hc, List.concat_eq_append, ← List.append_assoc, trailingBackslashes_concat hb]
        decide
    rw [pattern_eq_error_iff.2 hspan] at h
    exact reading_ne_trailingEscape hend (pattern_eq_error_iff.1 h.symm)
  · intro h
    by_cases heq : dropLineBreaks c = c
    · rw [heq]
    · have hreading := @reading_append_blanks (dropLineBreaks c).toList breaks source hblanks
      rw [← hc, String.ofList_toList, String.ofList_toList] at hreading
      rcases hreading with hreading | hlost
      · rw [pattern_eq, pattern_eq, hreading]
      · exact absurd ⟨heq, hlost⟩ h

/-- **Expressions in files.** A file that holds `c` and a line break gives the text `c` without the line
breaks that it ends in itself. The same is made of it as of `c` given inline, be it a pattern or an error,
unless one of these line breaks is a symbol. -/
theorem pattern_of_file {breaks : String} (hbreaks : breaks = "\n" ∨ breaks = "\r\n")
    (hcontent : contents path = .ok (c ++ breaks).toUTF8) (isPostfix : Bool) :
    (⟨some c, none, isPostfix⟩ : Source).text contents = .ok c ∧
      (⟨none, some path, isPostfix⟩ : Source).text contents = .ok (dropLineBreaks c) ∧
      ((⟨none, some path, isPostfix⟩ : Source).pattern (dropLineBreaks c) =
          (⟨some c, none, isPostfix⟩ : Source).pattern c ↔
        ¬ (⟨none, some path, isPostfix⟩ : Source).LosesSymbol c) := by
  have hbreaks : ∀ b ∈ breaks.toList, isLineBreak b = true := by
    rcases hbreaks with rfl | rfl
    · exact List.all_eq_true.1 rfl
    · exact List.all_eq_true.1 rfl
  refine ⟨rfl, text_of_file hcontent hbreaks, ?_⟩
  rw [← pattern_dropLineBreaks_iff]
  rfl

/-- An escaped backslash before a line break of the expression itself: nothing is lost with it. -/
theorem pattern_of_file_backslash :
    ("\r\n" = "\n" ∨ "\r\n" = "\r\n") ∧
      (fun _ => .ok ("a\\\\\n" ++ "\r\n").toUTF8 : String → Except FileError ByteArray) "bar" =
        .ok ("a\\\\\n" ++ "\r\n").toUTF8 ∧
      (⟨none, some "bar", false⟩ : Source).text (fun _ => .ok ("a\\\\\n" ++ "\r\n").toUTF8) =
        .ok (dropLineBreaks "a\\\\\n") ∧
      (⟨none, some "bar", false⟩ : Source).pattern (dropLineBreaks "a\\\\\n") =
        (⟨some "a\\\\\n", none, false⟩ : Source).pattern "a\\\\\n" := by
  have hbreaks : "\r\n" = "\n" ∨ "\r\n" = "\r\n" := Or.inr rfl
  obtain ⟨_, htext, hpattern⟩ := @pattern_of_file "a\\\\\n" "bar"
    (fun _ => .ok ("a\\\\\n" ++ "\r\n").toUTF8) "\r\n" hbreaks rfl false
  refine ⟨hbreaks, rfl, htext, hpattern.2 ?_⟩
  rintro ⟨_, span, hspan⟩
  have hreading : InfixText.tokens (dropLineBreaks "a\\\\\n") =
      .ok [.literal 'a', .literal '\\', .concat] := by decide
  cases hreading.symm.trans hspan

/-- The symbol of `\` and a line feed is lost, if the text that it ends comes from a file. -/
theorem not_forall_pattern_of_file :
    ¬ ∀ (c breaks path : String) (contents : String → Except FileError ByteArray) (isPostfix : Bool),
      breaks = "\n" ∨ breaks = "\r\n" → contents path = .ok (c ++ breaks).toUTF8 →
        ∃ text, (⟨none, some path, isPostfix⟩ : Source).text contents = .ok text ∧
          (⟨none, some path, isPostfix⟩ : Source).pattern text =
            (⟨some c, none, isPostfix⟩ : Source).pattern c := by
  intro h
  obtain ⟨text, htext, hpattern⟩ := h "a\\\n" "\n" "bar" (fun _ => .ok ("a\\\n" ++ "\n").toUTF8) false
    (Or.inl rfl) rfl
  have hfeed : ∀ b ∈ ("\n").toList, isLineBreak b = true := List.all_eq_true.1 rfl
  have hdropped : dropLineBreaks "a\\\n" = "a\\" := by decide
  rw [text_of_file rfl hfeed, hdropped] at htext
  obtain rfl : "a\\" = text := Except.ok.inj htext
  have hfile : (⟨none, some "bar", false⟩ : Source).reading "a\\" = .error (.trailingEscape ⟨1, 2⟩) := by
    decide
  have hinline : (⟨some "a\\\n", none, false⟩ : Source).reading "a\\\n" =
      .ok [.literal 'a', .literal '\n', .concat] := by decide
  rw [pattern_eq_error_iff.2 hfile] at hpattern
  cases hinline.symm.trans (pattern_eq_error_iff.1 hpattern.symm)

end CommandLine.Source

end FiniteAutomata
