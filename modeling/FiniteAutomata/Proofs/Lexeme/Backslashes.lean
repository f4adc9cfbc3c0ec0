import FiniteAutomata.Proofs.Lexeme
import FiniteAutomata.Proofs.Lexeme.Kinds
import Mathlib.Algebra.Ring.Parity
/-!
# Backslashes at the end of a text

Backslashes pair up from the left: a piece of a text takes a backslash together with the character
behind it. So between two pieces the text so far ends in an even number of backslashes
(`not_odd_trailingBackslashes`), and a text has a piece that is a backslash alone exactly if it ends in
an odd number of them (`odd_trailingBackslashes_iff`).
-/

namespace FiniteAutomata

/-- Length of the run of backslashes at the end of a text. -/
def trailingBackslashes (text : List Char) : Nat := (text.reverse.takeWhile (· = '\\')).length

/-- The last byte of a text. -/
def lastByte (text : List Char) : Span := ⟨byteLength text - 1, byteLength text⟩

/-- One more backslash dangles exactly if those before it pair up. -/
theorem odd_trailingBackslashes_concat (text : List Char) :
    Odd (trailingBackslashes (text ++ ['\\'])) ↔ ¬ Odd (trailingBackslashes text) := by
  have hsucc : trailingBackslashes (text ++ ['\\']) = trailingBackslashes text + 1 := by
    simp [trailingBackslashes]
  rw [hsucc, Nat.odd_add_one]

theorem trailingBackslashes_concat {c : Char} (hc : c ≠ '\\') (text : List Char) :
    trailingBackslashes (text ++ [c]) = 0 := by
  simp [trailingBackslashes, hc]

/-- Backslashes that pair up before a text do not change whether one dangles at its end. -/
theorem odd_trailingBackslashes_append {front : List Char} (hfront : ¬ Odd (trailingBackslashes front))
    (text : List Char) :
    Odd (trailingBackslashes (front ++ text)) ↔ Odd (trailingBackslashes text) := by
  induction text using List.reverseRecOn with
  | nil => rw [List.append_nil]; exact iff_of_false hfront (by decide)
  | append_singleton text c ih =>
    rw [← List.append_assoc]
    by_cases hc : c = '\\'
    · rw [hc, odd_trailingBackslashes_concat, odd_trailingBackslashes_concat, ih]
    · rw [trailingBackslashes_concat hc, trailingBackslashes_concat hc]

namespace Lexeme

variable {l : Lexeme} {before pieces after : List Lexeme} {front text : List Char} {offset stop : Nat}

theorem Fits.not_odd_append (h : l.Fits stop) (hkind : l.kind ≠ .backslash)
    (hfront : ¬ Odd (trailingBackslashes front)) : ¬ Odd (trailingBackslashes (front ++ l.text)) := by
  -- a piece ends in a character that is no backslash, or it is an escaped backslash
  have hlast : (∃ init c, l.text = init ++ [c] ∧ c ≠ '\\') ∨ l.text = ['\\', '\\'] := by
    by_cases hjunk : l.kind = .junk
    · obtain ⟨hne, hnothing⟩ := h.of_kind hjunk
      refine Or.inl ⟨_, _, (List.dropLast_concat_getLast hne).symm, fun hc => ?_⟩
      exact (hnothing _ (List.getLast_mem hne)).1 (by rw [hc]; decide)
    · rcases h.single_or_escape hjunk with ⟨c, hc, _, hbackslash⟩ | ⟨c, hc⟩
      · exact Or.inl ⟨[], c, hc, fun h => hkind (hbackslash h)⟩
      · by_cases hbackslash : c = '\\'
        · exact Or.inr (by rw [hc, hbackslash])
        · exact Or.inl ⟨['\\'], c, hc, hbackslash⟩
  rcases hlast with ⟨init, c, htext, hc⟩ | htext
  · rw [htext, ← List.append_assoc, trailingBackslashes_concat hc]
    decide
  · rw [htext, show front ++ ['\\', '\\'] = (front ++ ['\\']) ++ ['\\'] by simp,
      odd_trailingBackslashes_concat, odd_trailingBackslashes_concat, not_not]
    exact hfront

/-- **Between pieces** the text so far ends in an even number of backslashes. -/
theorem not_odd_trailingBackslashes (h : ∀ l ∈ pieces, l.Fits stop ∧ l.kind ≠ .backslash) :
    ¬ Odd (trailingBackslashes (pieces.flatMap Lexeme.text)) := by
  induction pieces using List.reverseRecOn with
  | nil => decide
  | append_singleton pieces l ih =>
    obtain ⟨hfits, hkind⟩ := h l (by simp)
    rw [List.flatMap_append, List.flatMap_singleton]
    exact hfits.not_odd_append hkind (ih fun m hm => h m (List.mem_append_left _ hm))

theorem Tiles.kind_ne_backslash (h : Tiles offset (before ++ l :: after) text)
    (hfits : ∀ p ∈ before ++ l :: after, p.Fits (offset + byteLength text)) :
    ∀ m ∈ before, m.kind ≠ .backslash := by
  intro m hm hkind
  obtain ⟨_, hend⟩ := (hfits m (List.mem_append_left _ hm)).of_kind hkind
  have hle := (List.pairwise_append.1 h.pairwise).2.2 m hm l List.mem_cons_self
  have hlt := h.start_lt_stop (l := l) (by simp)
  have hstop := h.stop_le (l := l) (by simp)
  omega

theorem Tiles.exists_concat_of_backslash (h : Tiles offset pieces text)
    (hfits : ∀ l ∈ pieces, l.Fits (offset + byteLength text)) (hl : l ∈ pieces)
    (hkind : l.kind = .backslash) :
    ∃ before, pieces = before ++ [l] ∧ l.text = ['\\'] ∧
      l.span = ⟨offset + byteLength text - 1, offset + byteLength text⟩ ∧
      ∀ m ∈ before, m.kind ≠ .backslash := by
  obtain ⟨hltext, hend⟩ := (hfits l hl).of_kind hkind
  obtain ⟨before, after, rfl⟩ := List.append_of_mem hl
  obtain ⟨_, hstart, hstop, _⟩ := h.split
  have hlength : l.span.start + 1 = l.span.stop := by
    rw [hstop, hstart, byteLength_append, hltext, Nat.add_assoc]
    rfl
  have hafter : after = [] := by
    cases after with
    | nil => rfl
    | cons m after =>
      rw [List.append_cons] at h hfits
      exact absurd hkind (h.kind_ne_backslash hfits l (by simp))
  refine ⟨before, by rw [hafter], hltext, ?_, h.kind_ne_backslash hfits⟩
  rw [← hend, show l.span.stop - 1 = l.span.start by omega]

theorem Tiles.odd_trailingBackslashes_iff (h : Tiles offset pieces text)
    (hfits : ∀ l ∈ pieces, l.Fits (offset + byteLength text)) :
    Odd (trailingBackslashes text) ↔ ∃ l ∈ pieces, l.kind = .backslash := by
  constructor
  · intro hodd
    by_contra hnone
    refine not_odd_trailingBackslashes (fun l hl => ⟨hfits l hl, fun hk => hnone ⟨l, hl, hk⟩⟩) ?_
    rwa [h.flatMap_text]
  · rintro ⟨l, hl, hkind⟩
    obtain ⟨before, rfl, hltext, _, hbefore⟩ := h.exists_concat_of_backslash hfits hl hkind
    rw [← h.flatMap_text, List.flatMap_append, List.flatMap_singleton, hltext,
      odd_trailingBackslashes_concat]
    exact not_odd_trailingBackslashes fun m hm =>
      ⟨hfits m (List.mem_append_left _ hm), hbefore m hm⟩

/-! ## Lexemes of a text -/

theorem odd_trailingBackslashes_iff_exists_mem_ofText {text : String} :
    Odd (trailingBackslashes text.toList) ↔ ∃ l ∈ ofText text, l.kind = .backslash := by
  rw [(tiles_ofText text).odd_trailingBackslashes_iff (fits_pieces text)]
  constructor
  · rintro ⟨l, hl, hkind⟩
    exact ⟨l, mem_ofText.2 ⟨hl, by rw [hkind]; decide⟩, hkind⟩
  · rintro ⟨l, hl, hkind⟩
    exact ⟨l, (mem_ofText.1 hl).1, hkind⟩

theorem span_of_backslash {text : String} (hl : l ∈ ofText text) (hkind : l.kind = .backslash) :
    l.span = lastByte text.toList := by
  obtain ⟨_, _, _, hspan, _⟩ :=
    (tiles_ofText text).exists_concat_of_backslash (fits_pieces text) (mem_ofText.1 hl).1 hkind
  rwa [Nat.zero_add] at hspan

end Lexeme

end FiniteAutomata
