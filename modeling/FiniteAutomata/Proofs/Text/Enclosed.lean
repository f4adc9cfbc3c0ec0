import FiniteAutomata.Label
import FiniteAutomata.Proofs.Lexeme.Backslashes
import FiniteAutomata.Proofs.Text.Quoted
/-!
# Texts between quotes

A quote with an odd number of backslashes before it is read as a character, since the last of them has no
other one to go with; any other quote ends the text that it is in. So a text can stand between quotes if all
its quotes are of the first kind and it leaves no backslash over at its end (`Enclosed`), and then it can be
read back: no other text is between the same quotes (`Enclosed.append_inj`). Parts that can stand between
quotes can stand there next to each other (`Enclosed.append`).

`QuotedTexts` says which texts stand between quotes in a longer one. It says so for one list of texts only
(`QuotedTexts.unique`).
-/

namespace FiniteAutomata

/-! ## One quoted text -/

/-- A text that a quote in front of it and a quote behind it can enclose. -/
structure Enclosed (body : List Char) : Prop where
  /-- Every quote in it has an odd number of backslashes before it. -/
  inner : ∀ front back, body = front ++ '\x22' :: back → Odd (trailingBackslashes front)
  /-- The quote behind it has not. -/
  closing : ¬ Odd (trailingBackslashes body)

namespace Enclosed

variable {u v s t : List Char}

theorem nil : Enclosed [] where
  inner front back h := by simp at h
  closing := by decide

theorem singleton {c : Char} (hquote : c ≠ '\x22') (hbackslash : c ≠ '\\') : Enclosed [c] where
  inner front back h := by
    have hmem : '\x22' ∈ [c] := h ▸ List.mem_append_right _ List.mem_cons_self
    exact absurd (List.mem_singleton.1 hmem).symm hquote
  closing := by
    rw [← List.nil_append [c], trailingBackslashes_concat hbackslash]
    decide

theorem escape (c : Char) : Enclosed ['\\', c] where
  inner front back h := by
    rcases List.append_eq_cons_iff.1 h.symm with ⟨_, hback⟩ | ⟨front, rfl, hback⟩
    · exact absurd (List.cons.inj hback).1 (by decide)
    · rcases List.singleton_eq_append_iff.1 hback with ⟨rfl, _⟩ | ⟨_, hnil⟩
      · decide
      · cases hnil
  closing := by
    by_cases hc : c = '\\'
    · rw [hc]
      decide
    · rw [show ['\\', c] = ['\\'] ++ [c] from rfl, trailingBackslashes_concat hc]
      decide

theorem append (hu : Enclosed u) (hv : Enclosed v) : Enclosed (u ++ v) where
  inner front back h := by
    rcases List.append_eq_append_iff.1 h with ⟨front, rfl, hback⟩ | ⟨middle, rfl, hback⟩
    · exact (odd_trailingBackslashes_append hu.closing front).2 (hv.inner front back hback)
    · cases middle with
      | nil => exact absurd (hv.inner [] back hback.symm) (by decide)
      | cons c middle =>
        obtain ⟨rfl, _⟩ := List.cons.inj hback
        exact hu.inner front middle rfl
  closing := fun h => hv.closing ((odd_trailingBackslashes_append hu.closing v).1 h)

theorem flatMap {α : Type} {write : α → List Char} {l : List α} (h : ∀ x ∈ l, Enclosed (write x)) :
    Enclosed (l.flatMap write) := by
  induction l with
  | nil => exact nil
  | cons x l ih =>
    obtain ⟨hx, hl⟩ := List.forall_mem_cons.1 h
    exact hx.append (ih hl)

theorem of_not_mem (hquote : '\x22' ∉ u) (hbackslash : '\\' ∉ u) : Enclosed u := by
  rw [← List.flatMap_singleton' u]
  exact flatMap fun c hc =>
    singleton (fun h => hquote (h ▸ hc)) (fun h => hbackslash (h ▸ hc))

/-- **The closing quote** is found again, whatever is behind it. -/
theorem append_inj (hu : Enclosed u) (hv : Enclosed v) (h : u ++ '\x22' :: s = v ++ '\x22' :: t) :
    u = v ∧ s = t := by
  -- a longer text would hold the closing quote of the shorter one
  rcases List.append_eq_append_iff.1 h with ⟨more, rfl, hrest⟩ | ⟨more, rfl, hrest⟩
  · cases more with
    | nil => exact ⟨(List.append_nil u).symm, (List.cons.inj hrest).2⟩
    | cons c more =>
      obtain ⟨rfl, _⟩ := List.cons.inj hrest
      exact absurd (hv.inner u more rfl) hu.closing
  · cases more with
    | nil => exact ⟨List.append_nil v, (List.cons.inj hrest).2.symm⟩
    | cons c more =>
      obtain ⟨rfl, _⟩ := List.cons.inj hrest
      exact absurd (hu.inner v more rfl) hv.closing

end Enclosed

/-! ## Labels -/

theorem Quoted.enclosed_character (c : Char) : Enclosed (character c).toList := by
  rcases character_cases c with ⟨htext, hbackslash, _⟩ | ⟨x, _, htext⟩ | htext
  · have hquote : c ≠ '\x22' := by
      rintro rfl
      exact absurd htext (by decide)
    rw [htext]
    exact .singleton hquote hbackslash
  · rw [htext]
    exact .escape x
  · have hsigns : ∀ sign ∈ ['\x22', '\\'], sign ∉ '\x7b' :: (Nat.toDigits 16 c.toNat ++ ['\x7d']) := by
      intro sign hsign hmem
      rw [List.mem_cons, List.mem_append, List.mem_singleton] at hmem
      rcases hmem with rfl | hmem | rfl
      · revert hsign
        decide
      · obtain ⟨d, hd, rfl⟩ := exists_digit_of_mem_toDigits (by decide) hmem
        have key : ∀ d < 16, d.digitChar ∉ ['\x22', '\\'] := by decide
        exact key d hd hsign
      · revert hsign
        decide
    rw [htext, toList_codePoint]
    exact (Enclosed.escape 'u').append (.of_not_mem (hsigns _ (by simp)) (hsigns _ (by simp)))

theorem Label.enclosed_text (l : Label) : Enclosed l.text.toList := by
  cases l with
  | symbol c => exact Quoted.enclosed_character c
  | epsilon => exact .of_not_mem (by decide) (by decide)

/-! ## All quoted texts -/

/-- The texts that stand between quotes in a text, from left to right. -/
inductive QuotedTexts : List Char → List (List Char) → Prop
  /-- There is no quote. -/
  | none {text : List Char} (plain : '\x22' ∉ text) : QuotedTexts text []
  /-- The first quote opens a text, and the search goes on behind the quote that closes it. -/
  | next {front body rest : List Char} {bodies : List (List Char)} (plain : '\x22' ∉ front)
      (enclosed : Enclosed body) (others : QuotedTexts rest bodies) :
      QuotedTexts (front ++ '\x22' :: (body ++ '\x22' :: rest)) (body :: bodies)

namespace QuotedTexts

variable {front text : List Char} {bodies others : List (List Char)}

theorem append (hfront : '\x22' ∉ front) (h : QuotedTexts text bodies) :
    QuotedTexts (front ++ text) bodies := by
  cases h with
  | none hplain => exact .none (List.not_mem_append hfront hplain)
  | next hplain henclosed hothers =>
    rw [← List.append_assoc]
    exact .next (List.not_mem_append hfront hplain) henclosed hothers

/-- **Reading is unambiguous.** A text has its quoted texts in one way only. -/
theorem unique (h : QuotedTexts text bodies) (h' : QuotedTexts text others) : bodies = others := by
  induction h generalizing others with
  | none hplain =>
    cases h' with
    | none => rfl
    | next => exact absurd (List.mem_append_right _ List.mem_cons_self) hplain
  | next hplain henclosed _ ih =>
    generalize htext : _ ++ '\x22' :: (_ ++ '\x22' :: _) = text at h'
    cases h' with
    | none hplain' =>
      rw [← htext] at hplain'
      exact absurd (List.mem_append_right _ List.mem_cons_self) hplain'
    | next hplain' henclosed' hothers =>
      obtain ⟨_, hrest⟩ := append_inj_of_not_mem hplain hplain' htext
      obtain ⟨rfl, rfl⟩ := henclosed.append_inj henclosed' hrest
      rw [ih hothers]

end QuotedTexts

end FiniteAutomata
