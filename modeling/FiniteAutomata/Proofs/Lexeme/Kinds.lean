import FiniteAutomata.Lexeme
import Mathlib.Data.List.Chain
/-!
# The text of each kind of lexeme

What the kind of a piece says of its text (`Lexeme.Fits`): a sign is its one character, an escape has
one character behind its backslash, a backslash alone is the end of the text, and junk is made of
characters that mean nothing. Joining junk neither changes this nor leaves two pieces of junk side by
side (`fits_joinJunk`, `isChain_joinJunk`).
-/

namespace FiniteAutomata

/-- A character that is neither a sign nor a letter, a number or white space. -/
def MeansNothing (c : Char) : Prop :=
  c ∉ ['(', ')', '|', '.', '*', '+', '?', '\\'] ∧ CodePoints.letterOrNumber.contains c = false ∧
    CodePoints.whiteSpace.contains c = false

instance : DecidablePred MeansNothing := fun c => by
  unfold MeansNothing
  infer_instance

/-- A piece of this kind may have the text, in a text that ends at byte `stop`. -/
def LexemeKind.Fits (stop : Nat) (span : Span) (text : List Char) : LexemeKind → Prop
  | openGroup => text = ['(']
  | closeGroup => text = [')']
  | bar => text = ['|']
  | dot => text = ['.']
  | star => text = ['*']
  | plus => text = ['+']
  | question => text = ['?']
  | escape => ∃ c, text = ['\\', c]
  | backslash => text = ['\\'] ∧ span.stop = stop
  | literal => ∃ c, text = [c] ∧ CodePoints.letterOrNumber.contains c = true
  | blank => ∃ c, text = [c] ∧ CodePoints.whiteSpace.contains c = true
  | junk => text ≠ [] ∧ ∀ c ∈ text, MeansNothing c

namespace Lexeme

/-- The text of a piece is one of its kind, in a text that ends at byte `stop`. -/
def Fits (stop : Nat) (l : Lexeme) : Prop := l.kind.Fits stop l.span l.text

theorem Fits.of_kind {stop : Nat} {l : Lexeme} {kind : LexemeKind} (h : l.Fits stop)
    (hkind : l.kind = kind) : kind.Fits stop l.span l.text := by
  subst hkind
  exact h

/-- A piece other than junk is one character that means something, or an escape. Only a lone backslash
is the one character `\`. -/
theorem Fits.single_or_escape {stop : Nat} {l : Lexeme} (h : l.Fits stop) (hkind : l.kind ≠ .junk) :
    (∃ c, l.text = [c] ∧ ¬ MeansNothing c ∧ (c = '\\' → l.kind = .backslash)) ∨
      ∃ c, l.text = ['\\', c] := by
  unfold Fits at h
  cases hk : l.kind <;> rw [hk] at h
  case escape => exact Or.inr h
  case junk => exact absurd hk hkind
  case backslash => exact Or.inl ⟨'\\', h.1, by decide, fun _ => rfl⟩
  case literal =>
    obtain ⟨c, hc, hclass⟩ := h
    refine Or.inl ⟨c, hc, fun hnothing => ?_, ?_⟩
    · exact Bool.false_ne_true (hnothing.2.1.symm.trans hclass)
    · rintro rfl
      revert hclass
      decide
  case blank =>
    obtain ⟨c, hc, hclass⟩ := h
    refine Or.inl ⟨c, hc, fun hnothing => ?_, ?_⟩
    · exact Bool.false_ne_true (hnothing.2.2.symm.trans hclass)
    · rintro rfl
      revert hclass
      decide
  all_goals exact Or.inl ⟨_, h, by decide, by decide⟩

theorem Fits.exists_symbol {stop : Nat} {l : Lexeme} (h : l.Fits stop)
    (hkind : l.kind = .literal ∨ l.kind = .escape) : ∃ c, l.symbol? = some c := by
  unfold symbol?
  rcases hkind with hkind | hkind
  · obtain ⟨c, hc, _⟩ := h.of_kind hkind
    exact ⟨c, by rw [hkind, hc]; rfl⟩
  · obtain ⟨c, hc⟩ := h.of_kind hkind
    exact ⟨c, by rw [hkind, hc]; rfl⟩

/-! ## One character -/

/-- A character on its own is a piece of its kind, unless it is a backslash that does not end the
text. -/
theorem fits_ofChar {c : Char} {span : Span} {stop : Nat} (hc : c = '\\' → span.stop = stop) :
    Fits stop ⟨.ofChar c, span, [c]⟩ := by
  unfold Fits LexemeKind.ofChar
  split
  case h_8 => exact ⟨rfl, hc rfl⟩
  case h_9 h₁ h₂ h₃ h₄ h₅ h₆ h₇ h₈ =>
    split
    · exact ⟨c, rfl, by assumption⟩
    · split
      · exact ⟨c, rfl, by assumption⟩
      · refine ⟨List.cons_ne_nil _ _, fun d hd => ?_⟩
        obtain rfl := List.mem_singleton.1 hd
        refine ⟨?_, Bool.eq_false_iff.2 (by assumption), Bool.eq_false_iff.2 (by assumption)⟩
        simp only [List.mem_cons, List.not_mem_nil, or_false, not_or]
        exact ⟨h₁, h₂, h₃, h₄, h₅, h₆, h₇, h₈⟩
  all_goals rfl

theorem eq_of_ofChar_eq_backslash {c : Char} (h : LexemeKind.ofChar c = .backslash) : c = '\\' := by
  have hfits : Fits 0 ⟨.ofChar c, ⟨0, 0⟩, [c]⟩ := fits_ofChar fun _ => rfl
  exact List.singleton_inj.1 (hfits.of_kind h).1

/-! ## All pieces -/

theorem fits_scan (offset : Nat) (text : List Char) :
    ∀ l ∈ scan offset text, l.Fits (offset + byteLength text) := by
  induction offset, text using scan.induct with
  | case1 offset =>
    intro l hl
    cases hl
  | case2 offset c rest stop ih =>
    rw [scan]
    have hstop : offset + byteLength ('\\' :: c :: rest) = stop + byteLength rest := by
      show offset + (1 + (c.utf8Size + byteLength rest)) = offset + 1 + c.utf8Size + byteLength rest
      omega
    rw [hstop]
    exact List.forall_mem_cons.2 ⟨⟨c, rfl⟩, ih⟩
  | case3 offset c rest hc stop ih =>
    rw [scan.eq_3 offset c rest hc]
    have hstop : offset + byteLength (c :: rest) = stop + byteLength rest := by
      show offset + (c.utf8Size + byteLength rest) = offset + c.utf8Size + byteLength rest
      omega
    rw [hstop]
    refine List.forall_mem_cons.2 ⟨fits_ofChar fun hbackslash => ?_, ih⟩
    cases rest with
    | nil => rfl
    | cons d rest => exact absurd rfl (hc d rest hbackslash)

/-- What holds of all pieces, and of two pieces of junk made one, holds of the pieces with their junk
joined. -/
theorem forall_joinJunk {P : Lexeme → Prop}
    (hjoin : ∀ l m, l.kind = .junk → m.kind = .junk → P l → P m → P (l.join m)) {s : List Lexeme}
    (h : ∀ l ∈ s, P l) : ∀ l ∈ joinJunk s, P l := by
  induction s with
  | nil => exact h
  | cons a s ih =>
    obtain ⟨ha, hs⟩ := List.forall_mem_cons.1 h
    have hrest := ih hs
    rw [joinJunk]
    cases hj : joinJunk s with
    | nil => exact List.forall_mem_singleton.2 ha
    | cons m more =>
      rw [hj] at hrest
      obtain ⟨hm, hmore⟩ := List.forall_mem_cons.1 hrest
      dsimp only
      split
      · rename_i hk
        exact List.forall_mem_cons.2 ⟨hjoin a m hk.1 hk.2 ha hm, hmore⟩
      · exact List.forall_mem_cons.2 ⟨ha, hrest⟩

theorem Fits.join {stop : Nat} {l m : Lexeme} (hl : l.kind = .junk) (hm : m.kind = .junk)
    (hlfits : l.Fits stop) (hmfits : m.Fits stop) : (l.join m).Fits stop := by
  obtain ⟨hlne, hlnothing⟩ := hlfits.of_kind hl
  obtain ⟨_, hmnothing⟩ := hmfits.of_kind hm
  show l.kind.Fits stop _ (l.text ++ m.text)
  rw [hl]
  exact ⟨List.append_ne_nil_of_left_ne_nil hlne _,
    fun c hc => (List.mem_append.1 hc).elim (hlnothing c) (hmnothing c)⟩

theorem fits_joinJunk {stop : Nat} {s : List Lexeme} (h : ∀ l ∈ s, l.Fits stop) :
    ∀ l ∈ joinJunk s, l.Fits stop :=
  forall_joinJunk (fun _ _ => Fits.join) h

/-- Two pieces of junk do not stay side by side. -/
theorem isChain_joinJunk (s : List Lexeme) :
    (joinJunk s).IsChain fun l m => ¬ (l.kind = .junk ∧ m.kind = .junk) := by
  induction s with
  | nil => exact .nil
  | cons a s ih =>
    rw [joinJunk]
    cases hj : joinJunk s with
    | nil => exact .singleton a
    | cons m more =>
      rw [hj] at ih
      dsimp only
      split
      · rename_i hk
        have hkind : (a.join m).kind = m.kind := hk.1.trans hk.2.symm
        cases ih with
        | singleton => exact .singleton _
        | cons_cons hr hrest => exact .cons_cons (by rwa [hkind]) hrest
      · rename_i hk
        exact .cons_cons hk ih

/-! ## Lexemes of a text -/

theorem mem_ofText {text : String} {l : Lexeme} :
    l ∈ ofText text ↔ l ∈ joinJunk (scan 0 text.toList) ∧ l.kind ≠ .blank := by
  simp [ofText, LexemeKind.isTrivia]

theorem fits_pieces (text : String) :
    ∀ l ∈ joinJunk (scan 0 text.toList), l.Fits (0 + byteLength text.toList) :=
  fits_joinJunk (fits_scan 0 text.toList)

theorem fits_of_mem_ofText {text : String} {l : Lexeme} (hl : l ∈ ofText text) :
    l.Fits (byteLength text.toList) := by
  have h := fits_pieces text l (mem_ofText.1 hl).1
  rwa [Nat.zero_add] at h

end Lexeme

end FiniteAutomata
