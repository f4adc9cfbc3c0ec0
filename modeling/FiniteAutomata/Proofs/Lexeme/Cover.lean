import FiniteAutomata.Proofs.Lexeme
import FiniteAutomata.Proofs.Lexeme.Kinds
/-!
# Lexemes cover their text

Each character of a text is in one of its pieces (`Tiles.exists_mem`), and of the pieces only white
space is dropped. Pieces of junk that are neighbours are joined, and where one piece ends and another
begins, the two are neighbours (`Tiles.rel_of_stop_eq`), so no lexeme of junk touches another.

Main statement: `covers_ofText`.
-/

namespace FiniteAutomata

/-- The byte lies in the span. -/
def Span.Holds (span : Span) (byte : Nat) : Prop := span.start ≤ byte ∧ byte < span.stop

instance (span : Span) (byte : Nat) : Decidable (span.Holds byte) := by
  unfold Span.Holds
  infer_instance

namespace Lexeme

variable {l m : Lexeme} {pieces : List Lexeme} {text : List Char} {offset : Nat}

/-- The lexemes are what a text is made of, but for white space. -/
structure Covers (text : List Char) (lexemes : List Lexeme) : Prop where
  /-- The span of a lexeme lies in the text, ends on character boundaries and cuts out its text. -/
  slice : ∀ l ∈ lexemes, slice? text l.span = some l.text
  /-- No span is empty. -/
  nonempty : ∀ l ∈ lexemes, l.span.start < l.span.stop
  /-- Spans ascend and have no byte in common. -/
  ascending : lexemes.Pairwise fun l m => l.span.stop ≤ m.span.start
  /-- A character whose first byte lies in no span is white space. -/
  blank : ∀ front c back, text = front ++ c :: back →
    (∀ l ∈ lexemes, ¬ l.span.Holds (byteLength front)) → CodePoints.whiteSpace.contains c = true
  /-- White space has no lexeme, and the text of a lexeme is one of its kind. -/
  fits : ∀ l ∈ lexemes, l.kind ≠ .blank ∧ l.Fits (byteLength text)
  /-- A lexeme of junk does not end where another begins. -/
  apart : ∀ l ∈ lexemes, ∀ m ∈ lexemes, l.kind = .junk → m.kind = .junk → l.span.stop ≠ m.span.start

/-! ## Pieces side by side -/

theorem Tiles.exists_mem (h : Tiles offset pieces text) {front back : List Char} {c : Char}
    (htext : text = front ++ c :: back) :
    ∃ l ∈ pieces, c ∈ l.text ∧ l.span.Holds (offset + byteLength front) := by
  induction h generalizing front with
  | nil => exact absurd htext.symm (List.append_ne_nil_of_right_ne_nil _ (List.cons_ne_nil _ _))
  | @cons l rest text hstop _ _ ih =>
    rcases List.append_eq_append_iff.1 htext with ⟨front', rfl, htail⟩ | ⟨inner, hl, hback⟩
    · obtain ⟨m, hm, hc, hholds⟩ := ih htail
      refine ⟨m, List.mem_cons_of_mem l hm, hc, ?_⟩
      rwa [hstop, Nat.add_assoc, ← byteLength_append] at hholds
    · cases inner with
      | nil =>
        obtain ⟨m, hm, hc, hholds⟩ := ih (show text = [] ++ c :: back from hback.symm)
        rw [List.append_nil] at hl
        rw [hstop, hl] at hholds
        exact ⟨m, List.mem_cons_of_mem l hm, hc, hholds⟩
      | cons d inner =>
        obtain ⟨rfl, rfl⟩ := List.cons.inj hback
        have hpos := c.utf8Size_pos
        rw [hl, byteLength_append, byteLength_cons] at hstop
        refine ⟨l, List.mem_cons_self, ?_, ?_, ?_⟩
        · rw [hl]
          exact List.mem_append_right _ List.mem_cons_self
        · omega
        · omega

theorem Tiles.rel_of_stop_eq {R : Lexeme → Lexeme → Prop} (h : Tiles offset pieces text)
    (hchain : pieces.IsChain R) (hl : l ∈ pieces) (hm : m ∈ pieces)
    (hstop : l.span.stop = m.span.start) : R l m := by
  obtain ⟨before, after, rfl⟩ := List.append_of_mem hl
  have hpair := List.pairwise_append.1 h.pairwise
  have hlt := h.start_lt_stop hl
  have hmlt := h.start_lt_stop hm
  have hafter : m ∈ after := by
    rcases List.mem_append.1 hm with hm | hm
    · have := hpair.2.2 m hm l List.mem_cons_self
      omega
    · rcases List.mem_cons.1 hm with rfl | hm
      · omega
      · exact hm
  obtain ⟨middle, rest, rfl⟩ := List.append_of_mem hafter
  cases middle with
  | nil => exact (List.isChain_append_cons_cons.1 hchain).2.1
  | cons n middle =>
    -- a piece between the two would be empty
    have hnlt := h.start_lt_stop (l := n) (by simp)
    have hl' := List.pairwise_cons.1 hpair.2.1
    have hln := hl'.1 n (by simp)
    have hnm := (List.pairwise_cons.1 hl'.2).1 m (by simp)
    omega

/-- **Nothing is lost.** The lexemes of a text cover it. -/
theorem covers_ofText (text : String) : Covers text.toList (ofText text) where
  slice _ hl := slice?_of_mem_ofText hl
  nonempty l hl := (tiles_ofText text).start_lt_stop (mem_ofText.1 hl).1
  ascending := (tiles_ofText text).pairwise.filter _
  blank front c back htext houtside := by
    obtain ⟨l, hl, hc, hholds⟩ := (tiles_ofText text).exists_mem htext
    rw [Nat.zero_add] at hholds
    by_cases hkind : l.kind = .blank
    · obtain ⟨d, htext, hd⟩ := (fits_pieces text l hl).of_kind hkind
      rw [htext, List.mem_singleton] at hc
      rwa [hc]
    · exact absurd hholds (houtside l (mem_ofText.2 ⟨hl, hkind⟩))
  fits l hl := ⟨(mem_ofText.1 hl).2, fits_of_mem_ofText hl⟩
  apart l hl m hm hljunk hmjunk hstop :=
    (tiles_ofText text).rel_of_stop_eq (isChain_joinJunk _) (mem_ofText.1 hl).1 (mem_ofText.1 hm).1 hstop
      ⟨hljunk, hmjunk⟩

end Lexeme

end FiniteAutomata
