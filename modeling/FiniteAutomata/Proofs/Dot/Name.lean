import FiniteAutomata.Dot
import FiniteAutomata.Proofs.Text.Enclosed
/-!
# Names of graphs

A graph is named by an ID: a word that is not reserved, or a quoted text. The name that is written is
always a word or a quoted text (`Dot.isToken_graphName`), and where it ends can be told from what is written
(`Dot.IsToken.append_inj`). But words are told by their characters alone, so a reserved word is left as it is,
and behind `digraph` it is no ID.

Main statement: `Automaton.dot_name_isId_iff`.
-/

namespace FiniteAutomata

namespace Dot

variable {name : String} {c : Char} {u v s t : List Char}

/-! ## Words and quoted texts -/

/-- The words that the language keeps for itself. -/
def keywords : List String := ["node", "edge", "graph", "digraph", "subgraph", "strict"]

/-- The text is a reserved word, in whatever case its letters are. -/
def IsKeyword (text : List Char) : Prop := text.map Char.toLower ∈ keywords.map String.toList

instance (text : List Char) : Decidable (IsKeyword text) :=
  inferInstanceAs (Decidable (_ ∈ keywords.map String.toList))

/-- Letters, digits and underscores, the first no digit. -/
def IsWord : List Char → Prop
  | [] => False
  | c :: rest => (c.isAlpha = true ∨ c = '_') ∧ ∀ d ∈ rest, d.isAlphanum = true ∨ d = '_'

/-- A text between quotes that ends at the last of them and not before. -/
def IsQuoted (text : List Char) : Prop := ∃ body, Enclosed body ∧ text = '\x22' :: (body ++ ['\x22'])

/-- A word or a quoted text. -/
def IsToken (text : List Char) : Prop := IsWord text ∨ IsQuoted text

/-- What can name a graph. -/
def IsId (text : List Char) : Prop := (IsWord text ∧ ¬ IsKeyword text) ∨ IsQuoted text

theorem IsId.isToken (h : IsId u) : IsToken u := h.imp_left And.left

/-! ## Classes of characters -/

theorem isUpper_iff : c.isUpper = true ↔ 65 ≤ c.toNat ∧ c.toNat ≤ 90 :=
  decide_eq_true_iff.trans (and_congr UInt32.le_iff_toNat_le UInt32.le_iff_toNat_le)

theorem isLower_iff : c.isLower = true ↔ 97 ≤ c.toNat ∧ c.toNat ≤ 122 := by
  refine Bool.and_eq_true_iff.trans (and_congr ?_ ?_)
  all_goals exact decide_eq_true_iff.trans UInt32.le_iff_toNat_le

theorem isAlpha_iff : c.isAlpha = true ↔ c.isUpper = true ∨ c.isLower = true := Bool.or_eq_true_iff

theorem isAlphanum_iff : c.isAlphanum = true ↔ c.isAlpha = true ∨ c.isDigit = true := Bool.or_eq_true_iff

theorem isDigit_eq_false_of_isAlpha (h : c.isAlpha = true) : c.isDigit = false := by
  rw [isAlpha_iff, isUpper_iff, isLower_iff] at h
  rw [← Bool.not_eq_true, Char.isDigit_iff_toNat]
  have hnine : '9'.toNat = 57 := rfl
  omega

theorem isAlpha_of_isLower_toLower (h : c.toLower.isLower = true) : c.isAlpha = true := by
  rw [isAlpha_iff]
  by_cases hupper : c.isUpper = true
  · exact Or.inl hupper
  · have hsame : c.toLower = c := dif_neg fun h => hupper (decide_eq_true h)
    rw [hsame] at h
    exact Or.inr h

theorem isWordChar_iff : isWordChar c = true ↔ c.isAlphanum = true ∨ c = '_' := by
  simp [isWordChar]

/-! ## Names that stay as they are -/

theorem isBare_iff : isBare name = true ↔ IsWord name.toList := by
  unfold isBare
  cases name.toList with
  | nil => exact iff_of_false Bool.false_ne_true id
  | cons c rest =>
    have hrest : rest.all isWordChar = true ↔ ∀ d ∈ rest, d.isAlphanum = true ∨ d = '_' := by
      simp only [List.all_eq_true, isWordChar_iff]
    have hfirst : (c.isDigit = false ∧ isWordChar c = true) ↔ (c.isAlpha = true ∨ c = '_') := by
      rw [isWordChar_iff, isAlphanum_iff]
      constructor
      · rintro ⟨hdigit, (halpha | hdigit') | hline⟩
        · exact Or.inl halpha
        · rw [hdigit] at hdigit'
          cases hdigit'
        · exact Or.inr hline
      · rintro (halpha | rfl)
        · exact ⟨isDigit_eq_false_of_isAlpha halpha, Or.inl (Or.inl halpha)⟩
        · exact ⟨rfl, Or.inr rfl⟩
    show (!c.isDigit && (c :: rest).all isWordChar) = true ↔ IsWord (c :: rest)
    rw [IsWord, ← hfirst, ← hrest, List.all_cons, Bool.and_eq_true, Bool.and_eq_true,
      Bool.not_eq_true', and_assoc]

theorem IsKeyword.isWord (h : IsKeyword u) : IsWord u := by
  have hletters : ∀ word ∈ keywords.map String.toList, word ≠ [] ∧ word.all Char.isLower = true := by
    decide
  obtain ⟨hne, hlower⟩ := hletters _ h
  have halpha : ∀ c ∈ u, c.isAlpha = true := fun c hc =>
    isAlpha_of_isLower_toLower (List.all_eq_true.1 hlower _ (List.mem_map_of_mem hc))
  cases u with
  | nil => exact absurd rfl hne
  | cons c rest =>
    obtain ⟨hc, hrest⟩ := List.forall_mem_cons.1 halpha
    exact ⟨Or.inl hc, fun d hd => Or.inl (isAlphanum_iff.2 (Or.inl (hrest d hd)))⟩

theorem IsWord.forall_isWordChar (h : IsWord u) : ∀ c ∈ u, isWordChar c = true := by
  cases u with
  | nil => cases h
  | cons c rest =>
    obtain ⟨hc, hrest⟩ := h
    have hfirst := isWordChar_iff.2 (hc.imp_left fun halpha => isAlphanum_iff.2 (Or.inl halpha))
    exact List.forall_mem_cons.2 ⟨hfirst, fun d hd => isWordChar_iff.2 (hrest d hd)⟩

theorem IsWord.not_isQuoted (h : IsWord u) : ¬ IsQuoted u := by
  rintro ⟨body, _, rfl⟩
  exact absurd (h.forall_isWordChar _ List.mem_cons_self) (by decide)

/-- **Where a name ends.** A word ends before the blank, and a quoted text at its closing quote. -/
theorem IsToken.append_inj (hu : IsToken u) (hv : IsToken v) (h : u ++ ' ' :: s = v ++ ' ' :: t) :
    u = v ∧ s = t := by
  have hmixed : ∀ {u v s t : List Char}, IsWord u → IsQuoted v → u ++ ' ' :: s ≠ v ++ ' ' :: t := by
    rintro u _ s t hu ⟨body, _, rfl⟩ h
    cases u with
    | nil => exact hu
    | cons c u =>
      obtain ⟨rfl, _⟩ := List.cons.inj h
      exact absurd (hu.forall_isWordChar _ List.mem_cons_self) (by decide)
  have hblank : isWordChar ' ' = false := rfl
  rcases hu with hu | hu <;> rcases hv with hv | hv
  case inl.inl =>
    obtain ⟨hword, hrest⟩ := append_inj_of_run hu.forall_isWordChar hv.forall_isWordChar
      (head?_of_sign hblank s) (head?_of_sign hblank t) h
    exact ⟨hword, (List.cons.inj hrest).2⟩
  case inl.inr => exact absurd h (hmixed hu hv)
  case inr.inl => exact absurd h.symm (hmixed hv hu)
  case inr.inr =>
    obtain ⟨body, hbody, rfl⟩ := hu
    obtain ⟨body', hbody', rfl⟩ := hv
    simp only [List.cons_append, List.append_assoc, List.nil_append, List.cons.injEq, true_and] at h
    obtain ⟨rfl, hrest⟩ := hbody.append_inj hbody' h
    exact ⟨rfl, (List.cons.inj hrest).2⟩

/-! ## The name of a graph -/

/-- What stands between the quotes of a name. -/
def quotedName (name : String) : List Char := name.toList.flatMap fun c => (quotedChar c).toList

theorem quotedChar_cases (c : Char) :
    (c = '\\' ∨ c = '\x22') ∧ (quotedChar c).toList = ['\\', c] ∨
      c ≠ '\\' ∧ c ≠ '\x22' ∧ (quotedChar c).toList = [c] := by
  unfold quotedChar
  split
  case h_1 => exact Or.inl ⟨Or.inl rfl, rfl⟩
  case h_2 => exact Or.inl ⟨Or.inr rfl, rfl⟩
  case h_3 hbackslash hquote => exact Or.inr ⟨hbackslash, hquote, String.toList_singleton c⟩

/-- A text with `new` in the place of every `old`. -/
def replaced (old : Char) (new text : List Char) : List Char :=
  text.flatMap fun c => if c = old then new else [c]

/-- Backslashes are doubled before quotes get theirs: the other way round, those would be doubled too. -/
theorem quotedName_eq_replaced (name : String) :
    quotedName name = replaced '\x22' ['\\', '\x22'] (replaced '\\' ['\\', '\\'] name.toList) := by
  unfold quotedName replaced
  rw [List.flatMap_assoc]
  refine List.flatMap_congr fun c _ => ?_
  rcases quotedChar_cases c with ⟨rfl | rfl, htext⟩ | ⟨hbackslash, hquote, htext⟩
  · rw [htext]
    decide
  · rw [htext]
    decide
  · rw [htext, if_neg hbackslash, List.flatMap_singleton, if_neg hquote]

/-- Every quote of a name gets a backslash that no other backslash takes. -/
theorem enclosed_quotedName (name : String) : Enclosed (quotedName name) := by
  refine .flatMap fun c _ => ?_
  rcases quotedChar_cases c with ⟨_, htext⟩ | ⟨hbackslash, hquote, htext⟩
  · rw [htext]
    exact .escape c
  · rw [htext]
    exact .singleton hquote hbackslash

theorem graphName_of_isBare (h : isBare name = true) : graphName name = name := if_pos h

theorem toList_graphName_of_not_isBare (h : isBare name = false) :
    (graphName name).toList = '\x22' :: (quotedName name ++ ['\x22']) := by
  have hquote : ("\"").toList = ['\x22'] := rfl
  unfold graphName quotedName
  rw [h, if_neg Bool.false_ne_true, String.toList_append, String.toList_append, String.toList_join,
    List.flatMap_map, hquote]
  rfl

theorem isToken_graphName (name : String) : IsToken (graphName name).toList := by
  cases hbare : isBare name with
  | true =>
    rw [graphName_of_isBare hbare]
    exact Or.inl (isBare_iff.1 hbare)
  | false => exact Or.inr ⟨_, enclosed_quotedName name, toList_graphName_of_not_isBare hbare⟩

/-- **Reserved words** are the only names that are not written as an ID. -/
theorem isId_graphName_iff : IsId (graphName name).toList ↔ ¬ IsKeyword name.toList := by
  cases hbare : isBare name with
  | true =>
    have hword : IsWord name.toList := isBare_iff.1 hbare
    rw [graphName_of_isBare hbare]
    exact ⟨fun h => h.elim And.right fun hquoted => absurd hquoted hword.not_isQuoted,
      fun h => Or.inl ⟨hword, h⟩⟩
  | false =>
    refine iff_of_true (Or.inr ⟨_, enclosed_quotedName name, toList_graphName_of_not_isBare hbare⟩) ?_
    intro hkeyword
    rw [isBare_iff.2 hkeyword.isWord] at hbare
    cases hbare

end Dot

namespace Automaton

open Dot

/-- The text behind the opening brace. -/
def dotBody (a : Automaton) : String :=
  "    rankdir=LR;\n    node [shape=circle];\n    start [shape=point];\n" ++
  String.join (a.acceptStates.map Dot.acceptLine) ++
  "    start -> S" ++ a.start.repr ++ ";\n" ++
  String.join (a.transitions.map Dot.edgeLine) ++ "\x7d\n"

theorem dot_eq (a : Automaton) (name : String) :
    a.dot name = "digraph " ++ graphName name ++ " \x7b\n" ++ a.dotBody := by
  unfold dot dotBody
  simp only [String.append_assoc]

/-- The name is read off the text. -/
theorem eq_graphName_of_dot_eq {a : Automaton} {name id rest : String} (hid : IsToken id.toList)
    (h : a.dot name = "digraph " ++ id ++ " \x7b\n" ++ rest) : id = graphName name := by
  have hbrace : (" \x7b\n").toList = ' ' :: ['\x7b', '\n'] := rfl
  rw [dot_eq] at h
  simp only [String.append_assoc, String.append_right_inj] at h
  replace h := congrArg String.toList h
  simp only [String.toList_append, hbrace, List.cons_append] at h
  exact String.toList_inj.1 ((isToken_graphName name).append_inj hid h).1.symm

theorem exists_id_iff (a : Automaton) (name : String) :
    (∃ id rest, IsId id.toList ∧ a.dot name = "digraph " ++ id ++ " \x7b\n" ++ rest) ↔
      IsId (graphName name).toList := by
  constructor
  · rintro ⟨id, rest, hid, h⟩
    rwa [← eq_graphName_of_dot_eq hid.isToken h]
  · exact fun h => ⟨graphName name, a.dotBody, h, a.dot_eq name⟩

/-- **Names.** What is written between `digraph` and the opening brace is an ID, unless the name is a reserved
word in some case of its letters: then it is none. -/
theorem dot_name_isId_iff (a : Automaton) (name : String) :
    (∃ id rest, IsId id.toList ∧ a.dot name = "digraph " ++ id ++ " \x7b\n" ++ rest) ↔
      ¬ IsKeyword name.toList := by
  rw [exists_id_iff, isId_graphName_iff]

/-- One edge, which reads `a`. -/
def singleLetter : Dfa where
  states := #[⟨.singleton 0, .ofList [('a', 1)], false⟩, ⟨.singleton 1, .empty, true⟩]
  start := 0
  alphabet := .ofList ['a']

theorem not_forall_dot_name_isId :
    ¬ ∀ (a : Automaton) (name : String),
      ∃ id rest, IsId id.toList ∧ a.dot name = "digraph " ++ id ++ " \x7b\n" ++ rest := by
  intro h
  have hid : IsId (graphName "graph").toList :=
    (exists_id_iff _ _).1 (h (.deterministic singleLetter) "graph")
  have hkeyword : IsKeyword ("graph").toList := by decide
  exact isId_graphName_iff.1 hid hkeyword

end Automaton

end FiniteAutomata
