import FiniteAutomata.Proofs.Lexeme
import FiniteAutomata.Proofs.Lexeme.Kinds
/-!
# Lexemes apart from their places

What a lexeme is does not depend on where it stands. A piece that lacks nothing, a character on its own
or a backslash with its character, is cut out again from any text in which its characters stand between
such pieces (`content_scan`). So a text put together from pieces has the lexemes that were put into it
(`content_ofText`), and a text whose lexemes are all sound is made of such pieces
(`sound_scan`).
-/

namespace FiniteAutomata

/-! ## White space is nothing else -/

namespace CodePoints

variable {s t : CodePoints} {c : Char}

theorem contains_eq_false_of_apart (h : ∀ r ∈ s.ranges, ∀ r' ∈ t.ranges, r.2 < r'.1 ∨ r'.2 < r.1)
    (hc : s.contains c = true) : t.contains c = false := by
  rw [Bool.eq_false_iff]
  intro ht
  obtain ⟨r, hr, hlo, hhi⟩ := contains_iff.1 hc
  obtain ⟨r', hr', hlo', hhi'⟩ := contains_iff.1 ht
  have hapart := h r hr r' hr'
  omega

theorem letterOrNumber_of_whiteSpace (hc : whiteSpace.contains c = true) :
    letterOrNumber.contains c = false :=
  contains_eq_false_of_apart (by decide +kernel) hc

end CodePoints

theorem LexemeKind.ofChar_of_whiteSpace {c : Char} (hc : CodePoints.whiteSpace.contains c = true) :
    LexemeKind.ofChar c = .blank := by
  have hletter := CodePoints.letterOrNumber_of_whiteSpace hc
  unfold LexemeKind.ofChar
  split
  case h_9 => rw [hletter, hc]; rfl
  all_goals exact absurd hc (by decide)

namespace Lexeme

variable {l : Lexeme} {pieces s : List Lexeme} {text : List Char} {offset : Nat}

/-- A lexeme without its place. -/
def content (l : Lexeme) : LexemeKind × List Char := (l.kind, l.text)

theorem kind_eq_of_content {m : Lexeme} (h : l.content = m.content) : l.kind = m.kind :=
  (Prod.mk.inj h).1

theorem symbol?_eq_of_content {m : Lexeme} (h : l.content = m.content) : l.symbol? = m.symbol? := by
  obtain ⟨hkind, htext⟩ := Prod.mk.inj h
  unfold symbol?
  rw [hkind, htext]

/-! ## Pieces that lack nothing -/

/-- A character other than a backslash, or a backslash with its character. -/
inductive Complete (l : Lexeme) : Prop where
  | single {c : Char} (ne_backslash : c ≠ '\\') (content_eq : l.content = (.ofChar c, [c]))
  | escape {c : Char} (content_eq : l.content = (.escape, ['\\', c]))

theorem complete_of_mem_scan (hl : l ∈ scan offset text) (hkind : l.kind ≠ .backslash) :
    l.Complete := by
  induction offset, text using scan.induct with
  | case1 => cases hl
  | case2 offset c rest stop ih =>
    rw [scan] at hl
    rcases List.mem_cons.1 hl with rfl | hl
    · exact .escape rfl
    · exact ih hl
  | case3 offset c rest hc stop ih =>
    rw [scan.eq_3 offset c rest hc] at hl
    rcases List.mem_cons.1 hl with rfl | hl
    · refine .single (fun hbackslash => hkind ?_) rfl
      show LexemeKind.ofChar c = .backslash
      rw [hbackslash]
      rfl
    · exact ih hl

/-- **Scanning** a text made of pieces gives them back, wherever it begins. -/
theorem content_scan (h : ∀ l ∈ pieces, l.Complete) (offset : Nat) :
    (scan offset (pieces.flatMap Lexeme.text)).map content = pieces.map content := by
  induction pieces generalizing offset with
  | nil => rfl
  | cons l pieces ih =>
    obtain ⟨hl, hpieces⟩ := List.forall_mem_cons.1 h
    rw [List.flatMap_cons, List.map_cons]
    cases hl with
    | @single c hc hcontent =>
      have htext : l.text = [c] := (Prod.mk.inj hcontent).2
      rw [htext, List.singleton_append, scan.eq_3 _ _ _ fun _ _ hc' _ => hc hc', List.map_cons,
        ih hpieces, hcontent]
      rfl
    | @escape c hcontent =>
      have htext : l.text = ['\\', c] := (Prod.mk.inj hcontent).2
      rw [htext, List.cons_append, List.singleton_append, scan, List.map_cons, ih hpieces, hcontent]
      rfl

/-! ## Texts without junk -/

theorem exists_mem_joinJunk (hl : l ∈ s) : ∃ m ∈ joinJunk s, m.kind = l.kind := by
  induction s with
  | nil => cases hl
  | cons a s ih =>
    rw [joinJunk]
    cases hj : joinJunk s with
    | nil =>
      rw [hj] at ih
      rcases List.mem_cons.1 hl with rfl | hl
      · exact ⟨l, List.mem_singleton_self l, rfl⟩
      · obtain ⟨m, hm, _⟩ := ih hl
        cases hm
    | cons m more =>
      rw [hj] at ih
      dsimp only
      split
      · rename_i hjunk
        rcases List.mem_cons.1 hl with rfl | hl
        · exact ⟨l.join m, List.mem_cons_self, rfl⟩
        · obtain ⟨n, hn, hkind⟩ := ih hl
          rcases List.mem_cons.1 hn with rfl | hn
          · exact ⟨a.join n, List.mem_cons_self, (hjunk.1.trans hjunk.2.symm).trans hkind⟩
          · exact ⟨n, List.mem_cons_of_mem _ hn, hkind⟩
      · rcases List.mem_cons.1 hl with rfl | hl
        · exact ⟨l, List.mem_cons_self, rfl⟩
        · obtain ⟨n, hn, hkind⟩ := ih hl
          exact ⟨n, List.mem_cons_of_mem a hn, hkind⟩

theorem joinJunk_eq_self (h : ∀ l ∈ s, l.kind ≠ .junk) : joinJunk s = s := by
  induction s with
  | nil => rfl
  | cons a s ih =>
    obtain ⟨ha, hs⟩ := List.forall_mem_cons.1 h
    rw [joinJunk, ih hs]
    cases s with
    | nil => rfl
    | cons m more => exact if_neg fun hjunk => ha hjunk.1

/-- A piece that can belong to an expression: it is complete, and no junk. -/
def Sound (l : Lexeme) : Prop := l.Complete ∧ l.kind ≠ .junk

theorem sound_blank {c : Char} (hc : CodePoints.whiteSpace.contains c = true) (span : Span) :
    Sound ⟨.blank, span, [c]⟩ := by
  have hkind := LexemeKind.ofChar_of_whiteSpace hc
  refine ⟨.single (c := c) ?_ (Prod.ext hkind.symm rfl), LexemeKind.noConfusion⟩
  rintro rfl
  cases hkind

/-- **From pieces to text.** The lexemes of a text made of sound pieces are these pieces, the blanks left
out. -/
theorem content_ofText (h : ∀ l ∈ pieces, l.Sound) :
    (ofText (String.ofList (pieces.flatMap Lexeme.text))).map content =
      (pieces.filter (!·.kind.isTrivia)).map content := by
  have hscan := content_scan (fun l hl => (h l hl).1) 0
  have hjunk : ∀ l ∈ scan 0 (pieces.flatMap Lexeme.text), l.kind ≠ .junk := by
    intro l hl
    have hmem : l.content ∈ pieces.map content := hscan ▸ List.mem_map_of_mem hl
    obtain ⟨m, hm, hcontent⟩ := List.mem_map.1 hmem
    rw [← kind_eq_of_content hcontent]
    exact (h m hm).2
  have hfilter : ∀ t : List Lexeme, (t.filter (!·.kind.isTrivia)).map content =
      (t.map content).filter (!·.1.isTrivia) := by
    intro t
    rw [List.filter_map]
    rfl
  unfold ofText
  rw [String.toList_ofList, joinJunk_eq_self hjunk, hfilter, hfilter, hscan]

/-- **From text to pieces.** A text without junk, and without a backslash that lacks its character, is cut
into sound pieces, and its lexemes are those that are no blanks. -/
theorem sound_scan {text : String} (h : ∀ l ∈ ofText text, l.kind ≠ .junk ∧ l.kind ≠ .backslash) :
    (∀ l ∈ scan 0 text.toList, l.Sound) ∧
      ofText text = (scan 0 text.toList).filter (!·.kind.isTrivia) := by
  have hkind : ∀ l ∈ scan 0 text.toList, l.kind ≠ .junk ∧ l.kind ≠ .backslash := by
    intro l hl
    obtain ⟨m, hm, hkind⟩ := exists_mem_joinJunk hl
    rw [← hkind]
    by_cases hblank : m.kind = .blank
    · rw [hblank]
      exact ⟨by decide, by decide⟩
    · exact h m (mem_ofText.2 ⟨hm, hblank⟩)
  refine ⟨fun l hl => ⟨complete_of_mem_scan hl (hkind l hl).2, (hkind l hl).1⟩, ?_⟩
  unfold ofText
  rw [joinJunk_eq_self fun l hl => (hkind l hl).1]

end Lexeme

end FiniteAutomata
