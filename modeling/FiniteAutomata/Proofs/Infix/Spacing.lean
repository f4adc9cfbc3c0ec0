import FiniteAutomata.Proofs.Infix.Grammar
import FiniteAutomata.Proofs.Lexeme.Content
import FiniteAutomata.Proofs.Lexeme.Cover
import FiniteAutomata.Proofs.Returns
import Mathlib.Logic.Relation
/-!
# White space between lexemes

A place of a text that lies in no lexeme is one where its pieces can be parted (`Tiles.exists_append`),
and white space that no backslash makes a symbol is a piece of its own. So white space that is put
between lexemes, or taken away there, changes the places of the lexemes and nothing else
(`BlankEdit.content_eq`), and the grammar does not look at places (`Derives.congr`).

Main statement: `tokens_of_blankEdits`.
-/

namespace FiniteAutomata

open Lexeme Grammar

variable {l b : Lexeme} {before pieces after s s' t : List Lexeme} {text text' : String} {ts : List Token}

/-! ## Parting pieces -/

namespace Lexeme

variable {front back : List Char} {offset : Nat}

theorem Complete.kind_of_append (h : l.Complete) (htext : l.text = front ++ back) (hfront : front ≠ [])
    (hback : back ≠ []) : l.kind = .escape := by
  cases h with
  | single _ hcontent =>
    rw [(Prod.mk.inj hcontent).2] at htext
    rcases List.append_eq_singleton_iff.1 htext.symm with ⟨hnil, _⟩ | ⟨_, hnil⟩
    · exact absurd hnil hfront
    · exact absurd hnil hback
  | escape hcontent => exact (Prod.mk.inj hcontent).1

/-- **Parting.** Pieces can be parted at a place inside no escape. -/
theorem Tiles.exists_append (h : Tiles offset pieces (front ++ back))
    (hcomplete : ∀ l ∈ pieces, l.Complete)
    (houtside : ∀ l ∈ pieces, l.kind = .escape →
      offset + byteLength front ≤ l.span.start ∨ l.span.stop ≤ offset + byteLength front) :
    ∃ before after, pieces = before ++ after ∧ before.flatMap Lexeme.text = front ∧
      after.flatMap Lexeme.text = back := by
  generalize htext : front ++ back = whole at h
  induction h generalizing front with
  | nil =>
    obtain ⟨rfl, rfl⟩ := List.append_eq_nil_iff.1 htext
    exact ⟨[], [], rfl, rfl, rfl⟩
  | @cons l rest whole hstop hne htail ih =>
    obtain ⟨hl, hrest⟩ := List.forall_mem_cons.1 hcomplete
    obtain ⟨hlout, hrestout⟩ := List.forall_mem_cons.1 houtside
    rcases List.append_eq_append_iff.1 htext with ⟨inner, hlfront, hback⟩ | ⟨front', rfl, hwhole⟩
    · -- the place is in the first piece, so at one of its ends
      by_cases hfront : front = []
      · refine ⟨[], l :: rest, rfl, hfront.symm, ?_⟩
        rw [List.flatMap_cons, htail.flatMap_text, ← htext, hfront, List.nil_append]
      by_cases hinner : inner = []
      · refine ⟨[l], rest, rfl, ?_, ?_⟩
        · rw [List.flatMap_singleton, hlfront, hinner, List.append_nil]
        · rw [htail.flatMap_text, hback, hinner, List.nil_append]
      have hfrontpos := byteLength_pos hfront
      have hinnerpos := byteLength_pos hinner
      rw [hlfront, byteLength_append] at hstop
      have := hlout (hl.kind_of_append hlfront hfront hinner)
      omega
    · have hplace : l.span.stop + byteLength front' = l.span.start + byteLength (l.text ++ front') := by
        rw [hstop, byteLength_append, Nat.add_assoc]
      obtain ⟨before, after, rfl, hbefore, hafter⟩ := ih hrest (by rwa [hplace]) hwhole.symm
      exact ⟨l :: before, after, rfl, by rw [List.flatMap_cons, hbefore], hafter⟩

end Lexeme

/-! ## Edits of white space -/

/-- One character of white space is put into a text where there is no lexeme, or taken out of it where it
is no symbol behind a backslash. -/
inductive BlankEdit (text : String) : String → Prop where
  | insert {front back : List Char} {c : Char} (split : text.toList = front ++ back)
    (isBlank : CodePoints.whiteSpace.contains c = true)
    (outside : ∀ l ∈ ofText text, byteLength front ≤ l.span.start ∨ l.span.stop ≤ byteLength front) :
    BlankEdit text (String.ofList (front ++ c :: back))
  | delete {front back : List Char} {c : Char} (split : text.toList = front ++ c :: back)
    (isBlank : CodePoints.whiteSpace.contains c = true)
    (notEscaped : ∀ l ∈ ofText text, l.kind = .escape → ¬ l.span.Holds (byteLength front)) :
    BlankEdit text (String.ofList (front ++ back))

/-- No lexeme is junk, or a backslash that lacks its character. -/
def Unspoilt (text : String) : Prop := ∀ l ∈ ofText text, l.kind ≠ .junk ∧ l.kind ≠ .backslash

theorem filter_append_blank (hb : b.kind = .blank) :
    (before ++ b :: after).filter (!·.kind.isTrivia) = (before ++ after).filter (!·.kind.isTrivia) := by
  rw [List.filter_append, List.filter_append, List.filter_cons_of_neg]
  rw [hb]
  decide

/-- **One edit.** White space between lexemes changes no lexeme but for its place. -/
theorem BlankEdit.content_eq (h : BlankEdit text text') (htext : Unspoilt text) :
    (ofText text').map content = (ofText text).map content := by
  obtain ⟨hsound, hlexemes⟩ := sound_scan htext
  have htiles := tiles_scan 0 text.toList
  have hmem : ∀ l ∈ scan 0 text.toList, l.kind = .escape → l ∈ ofText text := by
    intro l hl hkind
    rw [hlexemes]
    exact List.mem_filter.2 ⟨hl, by rw [hkind]; rfl⟩
  rw [hlexemes]
  generalize scan 0 text.toList = pieces at hsound htiles hmem
  cases h with
  | @insert front back c split isBlank outside =>
    rw [split] at htiles
    obtain ⟨before, after, rfl, rfl, rfl⟩ := htiles.exists_append (fun l hl => (hsound l hl).1)
      fun l hl hkind => by simpa using outside l (hmem l hl hkind)
    let b : Lexeme := ⟨.blank, ⟨0, 0⟩, [c]⟩
    have hb : b.Sound := sound_blank isBlank _
    have hpieces : ∀ l ∈ before ++ b :: after, l.Sound := by
      simpa [or_imp, forall_and, hb] using hsound
    have key := content_ofText hpieces
    rwa [filter_append_blank rfl, List.flatMap_append, List.flatMap_cons] at key
  | @delete front back c split isBlank notEscaped =>
    rw [split] at htiles
    obtain ⟨before, rest, rfl, rfl, hrest⟩ := htiles.exists_append (fun l hl => (hsound l hl).1)
      fun l hl hkind => by
        have hout := notEscaped l (hmem l hl hkind) hkind
        unfold Span.Holds at hout
        omega
    cases rest with
    | nil => cases hrest
    | cons b after =>
      rw [List.flatMap_cons] at hrest
      have hb : b.kind = .blank ∧ b.text = [c] := by
        cases (hsound b (by simp)).1 with
        | single _ hcontent =>
          obtain ⟨hkind, hbtext⟩ := Prod.mk.inj hcontent
          rw [hbtext, List.singleton_append] at hrest
          obtain ⟨rfl, _⟩ := List.cons.inj hrest
          exact ⟨hkind.trans (LexemeKind.ofChar_of_whiteSpace isBlank), hbtext⟩
        | escape hcontent =>
          rw [(Prod.mk.inj hcontent).2] at hrest
          obtain ⟨rfl, _⟩ := List.cons.inj hrest
          exact absurd isBlank (by decide)
      rw [hb.2, List.singleton_append] at hrest
      obtain ⟨_, rfl⟩ := List.cons.inj hrest
      have hpieces : ∀ l ∈ before ++ after, l.Sound := by
        intro l hl
        refine hsound l ?_
        rcases List.mem_append.1 hl with hl | hl
        · exact List.mem_append_left _ hl
        · exact List.mem_append_right _ (List.mem_cons_of_mem b hl)
      have key := content_ofText hpieces
      rwa [← filter_append_blank hb.1, List.flatMap_append] at key

theorem Unspoilt.of_content_eq (h : Unspoilt text)
    (hcontent : (ofText text').map content = (ofText text).map content) : Unspoilt text' := by
  intro l hl
  have hmem : l.content ∈ (ofText text).map content := hcontent ▸ List.mem_map_of_mem hl
  obtain ⟨m, hm, hlm⟩ := List.mem_map.1 hmem
  rw [← kind_eq_of_content hlm]
  exact h m hm

theorem content_eq_of_blankEdits (h : Relation.ReflTransGen BlankEdit text text')
    (htext : Unspoilt text) : (ofText text').map content = (ofText text).map content := by
  induction h with
  | refl => rfl
  | tail _ hedit ih => exact (hedit.content_eq (htext.of_content_eq ih)).trans ih

/-! ## The grammar -/

theorem exists_append_of_content (h : s'.map content = (s ++ t).map content) :
    ∃ s₁ t₁, s' = s₁ ++ t₁ ∧ s₁.map content = s.map content ∧ t₁.map content = t.map content := by
  rw [List.map_append] at h
  exact List.map_eq_append_iff.1 h

theorem exists_cons_of_content (h : s'.map content = (l :: t).map content) :
    ∃ m t₁, s' = m :: t₁ ∧ m.content = l.content ∧ t₁.map content = t.map content := by
  rw [List.map_cons] at h
  exact List.map_eq_cons_iff.1 h

theorem exists_concat_of_content (h : s'.map content = (s ++ [l]).map content) :
    ∃ s₁ m, s' = s₁ ++ [m] ∧ s₁.map content = s.map content ∧ m.content = l.content := by
  obtain ⟨s₁, t₁, rfl, hs, ht⟩ := exists_append_of_content h
  obtain ⟨m, rfl, hm⟩ := List.map_eq_singleton_iff.1 ht
  exact ⟨s₁, m, rfl, hs, hm⟩

/-- **Places** of lexemes mean nothing to the grammar. -/
theorem Grammar.Derives.congr {rank : Rank} {e : Expression} (h : Derives rank s e)
    (hcontent : s'.map content = s.map content) : Derives rank s' e := by
  induction h generalizing s' with
  | symbol denotes =>
    obtain ⟨m, rfl, hm⟩ := List.map_eq_singleton_iff.1 hcontent
    exact .symbol ((symbol?_eq_of_content hm).trans denotes)
  | group isOpening isClosing _ ih =>
    obtain ⟨s₁, closing, rfl, hs, hclosing⟩ := exists_concat_of_content hcontent
    obtain ⟨opening, inner, rfl, hopening, hinner⟩ := exists_cons_of_content hs
    exact .group ((kind_eq_of_content hopening).trans isOpening)
      ((kind_eq_of_content hclosing).trans isClosing) (ih hinner)
  | ofAtom _ ih => exact .ofAtom (ih hcontent)
  | ofRepetition _ ih => exact .ofRepetition (ih hcontent)
  | ofConcat _ ih => exact .ofConcat (ih hcontent)
  | star _ isStar ih =>
    obtain ⟨s₁, m, rfl, hs, hm⟩ := exists_concat_of_content hcontent
    exact .star (ih hs) ((kind_eq_of_content hm).trans isStar)
  | plus _ isPlus ih =>
    obtain ⟨s₁, m, rfl, hs, hm⟩ := exists_concat_of_content hcontent
    exact .plus (ih hs) ((kind_eq_of_content hm).trans isPlus)
  | optional _ isQuestion ih =>
    obtain ⟨s₁, m, rfl, hs, hm⟩ := exists_concat_of_content hcontent
    exact .optional (ih hs) ((kind_eq_of_content hm).trans isQuestion)
  | juxtaposed _ _ ihs iht =>
    obtain ⟨s₁, t₁, rfl, hs, ht⟩ := exists_append_of_content hcontent
    exact .juxtaposed (ihs hs) (iht ht)
  | concat _ isDot _ ihs iht =>
    obtain ⟨s₁, rest, rfl, hs, hrest⟩ := exists_append_of_content hcontent
    obtain ⟨m, t₁, rfl, hm, ht⟩ := exists_cons_of_content hrest
    exact .concat (ihs hs) ((kind_eq_of_content hm).trans isDot) (iht ht)
  | union _ isBar _ ihs iht =>
    obtain ⟨s₁, rest, rfl, hs, hrest⟩ := exists_append_of_content hcontent
    obtain ⟨m, t₁, rfl, hm, ht⟩ := exists_cons_of_content hrest
    exact .union (ihs hs) ((kind_eq_of_content hm).trans isBar) (iht ht)

namespace InfixText

/-- Texts with the same lexemes, wherever they lie, have the same tokens. -/
theorem tokens_of_content_eq (h : tokens text = .ok ts)
    (hcontent : (ofText text').map content = (ofText text).map content) : tokens text' = .ok ts := by
  rw [tokens_eq_ok_iff] at h ⊢
  rcases h with ⟨hnil, rfl⟩ | ⟨e, he, rfl⟩
  · rw [hnil] at hcontent
    exact Or.inl ⟨List.map_eq_nil_iff.1 hcontent, rfl⟩
  · exact Or.inr ⟨e, he.congr hcontent, rfl⟩

theorem unspoilt_of_tokens (h : tokens text = .ok ts) : Unspoilt text := by
  intro l hl
  unfold tokens ofLexemes at h
  obtain ⟨r, hr, _⟩ := exists_of_bind_eq_ok h
  obtain ⟨r', r'', hfeed⟩ := exists_of_foldlM_eq_ok hr hl
  constructor
  · intro hkind
    unfold Reader.feed at hfeed
    rw [hkind] at hfeed
    cases hfeed
  · intro hkind
    unfold Reader.feed at hfeed
    rw [hkind] at hfeed
    cases hfeed

/-- **White space** between lexemes is of no account. A text that is read has the same tokens after white
space was put anywhere between its lexemes, before the first or behind the last, and after white space
was taken away anywhere but behind the backslash that makes it a symbol, as often as one likes. -/
theorem tokens_of_blankEdits (h : tokens text = .ok ts)
    (hedits : Relation.ReflTransGen BlankEdit text text') : tokens text' = .ok ts :=
  tokens_of_content_eq h (content_eq_of_blankEdits hedits (unspoilt_of_tokens h))

/-- The blank behind the backslash stays, the one before it goes, and a line feed comes behind both. -/
theorem tokens_of_blankEdits_escape :
    tokens "a \\ b" = .ok [.literal 'a', .literal ' ', .concat, .literal 'b', .concat] ∧
      Relation.ReflTransGen BlankEdit "a \\ b" "a\\ \nb" ∧
      tokens "a\\ \nb" = .ok [.literal 'a', .literal ' ', .concat, .literal 'b', .concat] := by
  have h : tokens "a \\ b" = .ok [.literal 'a', .literal ' ', .concat, .literal 'b', .concat] := by
    decide
  have hdelete : BlankEdit "a \\ b" "a\\ b" :=
    @BlankEdit.delete _ ['a'] ['\\', ' ', 'b'] ' ' rfl (by decide) (by decide)
  have hinsert : BlankEdit "a\\ b" "a\\ \nb" :=
    @BlankEdit.insert _ ['a', '\\', ' '] ['b'] '\n' rfl (by decide) (by decide)
  have hedits : Relation.ReflTransGen BlankEdit "a \\ b" "a\\ \nb" := .tail (.single hdelete) hinsert
  exact ⟨h, hedits, tokens_of_blankEdits h hedits⟩

end InfixText

end FiniteAutomata
