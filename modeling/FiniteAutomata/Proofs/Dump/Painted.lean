import FiniteAutomata.Proofs.Dump.Complete
import Mathlib.Data.List.TakeWhile
/-!
# Colours add escape sequences only

A sequence that sets a colour is the escape character, `[`, digits and `m`; `ColourSequence.strip` takes
them out of a text. A listing with colours is put together from the same parts as the one without, in the
same order, with sequences between them. Each part paints its plain form (`Paints`): the plain form has
no escape character, since a symbol that does not show is quoted, and stripping leaves just that form,
whatever stands behind. So symbols such as `[` and `m` next to a sequence are never taken for a part of it.

Main statement: `Automaton.strip_dump`.
-/

namespace FiniteAutomata

/-! ## Sequences that set a colour -/

namespace ColourSequence

variable {c : Char} {s t rest : List Char}

/-- The escape character, `[`, digits and `m`. -/
def IsSequence (s : List Char) : Prop :=
  ∃ digits, digits ≠ [] ∧ (∀ d ∈ digits, d.isDigit = true) ∧ s = '\x1b' :: '[' :: (digits ++ ['m'])

/-- What stands behind the sequence that a text begins with. -/
def behind? : List Char → Option (List Char)
  | '\x1b' :: '[' :: rest =>
    match rest.takeWhile Char.isDigit, rest.dropWhile Char.isDigit with
    | _ :: _, 'm' :: behind => some behind
    | _, _ => none
  | _ => none

theorem behind?_eq_some_iff : behind? s = some t ↔ ∃ sequence, IsSequence sequence ∧ s = sequence ++ t := by
  constructor
  · intro h
    unfold behind? at h
    split at h
    case h_1 rest =>
      have hrest := List.takeWhile_append_dropWhile (p := Char.isDigit) (l := rest)
      split at h
      case h_1 d digits behind htake hdrop =>
        obtain rfl := Option.some.inj h
        refine ⟨'\x1b' :: '[' :: ((d :: digits) ++ ['m']), ⟨d :: digits, by simp, ?_, rfl⟩, ?_⟩
        · rw [← htake]
          exact fun d hd => List.mem_takeWhile_imp hd
        · rw [htake, hdrop] at hrest
          simp [← hrest]
      case h_2 => cases h
    case h_2 => cases h
  · rintro ⟨_, ⟨digits, hne, hdigits, rfl⟩, rfl⟩
    obtain ⟨d, digits, rfl⟩ := List.exists_cons_of_ne_nil hne
    have htake : ((d :: digits) ++ 'm' :: t).takeWhile Char.isDigit = d :: digits := by
      rw [List.takeWhile_append_of_pos hdigits, List.takeWhile_cons_of_neg (by decide), List.append_nil]
    have hdrop : ((d :: digits) ++ 'm' :: t).dropWhile Char.isDigit = 'm' :: t := by
      rw [List.dropWhile_append_of_pos hdigits, List.dropWhile_cons_of_neg (by decide)]
    show behind? ('\x1b' :: '[' :: (((d :: digits) ++ ['m']) ++ t)) = some t
    rw [List.append_assoc, List.singleton_append, behind?, htake, hdrop]
    rfl

theorem length_lt_of_behind? (h : behind? s = some t) : t.length < s.length := by
  obtain ⟨_, ⟨digits, _, _, rfl⟩, rfl⟩ := behind?_eq_some_iff.1 h
  simp only [List.length_append, List.length_cons]
  omega

/-- The text without the sequences in it. -/
def strip (s : List Char) : List Char :=
  match s with
  | [] => []
  | c :: rest =>
    match _h : behind? (c :: rest) with
    | some behind => strip behind
    | none => c :: strip rest
termination_by s.length
decreasing_by
  · exact length_lt_of_behind? _h
  · exact Nat.lt_succ_self _

theorem strip_sequence_append (h : IsSequence s) (rest : List Char) : strip (s ++ rest) = strip rest := by
  have hbehind : behind? (s ++ rest) = some rest := behind?_eq_some_iff.2 ⟨s, h, rfl⟩
  obtain ⟨digits, _, _, rfl⟩ := h
  rw [List.cons_append] at hbehind ⊢
  rw [strip]
  split
  case h_1 behind hsome => rw [Option.some.inj (hbehind.symm.trans hsome)]
  case h_2 hnone => cases hbehind.symm.trans hnone

theorem strip_cons (hc : c ≠ '\x1b') (rest : List Char) : strip (c :: rest) = c :: strip rest := by
  have hbehind : behind? (c :: rest) = none := by
    unfold behind?
    split
    case h_1 heq => exact absurd (List.cons.inj heq).1 hc
    case h_2 => rfl
  rw [strip]
  split
  case h_1 hsome => cases hbehind.symm.trans hsome
  case h_2 => rfl

theorem strip_append (hs : '\x1b' ∉ s) (rest : List Char) : strip (s ++ rest) = s ++ strip rest := by
  induction s with
  | nil => rfl
  | cons c s ih =>
    rw [List.mem_cons, not_or] at hs
    rw [List.cons_append, strip_cons (Ne.symm hs.1), ih hs.2, List.cons_append]

end ColourSequence

open ColourSequence (IsSequence strip)

/-! ## Painted texts -/

/-- `plain` has no escape character, and it is what `painted` is without its sequences, whatever stands
behind. -/
structure Paints (painted plain : String) : Prop where
  strip_append : ∀ rest, strip (painted.toList ++ rest) = plain.toList ++ strip rest
  escape_not_mem : '\x1b' ∉ plain.toList

namespace Paints

variable {s t s' t' separator : String}

theorem of_not_mem (h : '\x1b' ∉ s.toList) : Paints s s := ⟨ColourSequence.strip_append h, h⟩

theorem of_isSequence (h : IsSequence s.toList) : Paints s "" :=
  ⟨ColourSequence.strip_sequence_append h, List.not_mem_nil⟩

theorem append (h : Paints s t) (h' : Paints s' t') : Paints (s ++ s') (t ++ t') where
  strip_append rest := by
    rw [String.toList_append, String.toList_append, List.append_assoc, h.strip_append, h'.strip_append,
      List.append_assoc]
  escape_not_mem := by
    rw [String.toList_append, List.mem_append, not_or]
    exact ⟨h.escape_not_mem, h'.escape_not_mem⟩

theorem intercalate {α : Type} {write write' : α → String} {l : List α} (h : ∀ x, Paints (write x) (write' x))
    (hseparator : '\x1b' ∉ separator.toList) :
    Paints (separator.intercalate (l.map write)) (separator.intercalate (l.map write')) := by
  induction l with
  | nil => exact of_not_mem (by simp)
  | cons x l ih =>
    cases l with
    | nil => simpa using h x
    | cons y l =>
      simp only [List.map_cons, String.intercalate_cons_cons] at ih ⊢
      exact ((h x).append (of_not_mem hseparator)).append ih

theorem join {l m : List String} (h : List.Forall₂ Paints l m) : Paints (String.join l) (String.join m) := by
  induction h with
  | nil => exact of_not_mem (by simp)
  | cons hline _ ih =>
    rw [String.join_cons, String.join_cons]
    exact hline.append ih

theorem strip_eq (h : Paints s t) : strip s.toList = t.toList := by
  have hrest := h.strip_append []
  rwa [List.append_nil, show strip [] = [] by rw [strip], List.append_nil] at hrest

end Paints

/-! ## Parts of a line -/

theorem Label.escape_not_mem_text (l : Label) : '\x1b' ∉ l.text.toList := by
  cases l with
  | symbol c => exact fun h => absurd (Quoted.isPlain_of_mem_character h) (by decide +kernel)
  | epsilon => decide

theorem StateSet.escape_not_mem_text (s : StateSet) : '\x1b' ∉ s.text.toList := by
  unfold text listed
  simp only [String.toList_append, List.mem_append, not_or]
  exact ⟨⟨by decide, DumpStyle.not_mem_members (by decide) (by decide) s⟩, by decide⟩

namespace DumpStyle

/-- With colours. -/
abbrev colored (showsSubsets : Bool) : DumpStyle := {palette := .on, showsSubsets}

/-- Without colours. -/
abbrev uncolored (showsSubsets : Bool) : DumpStyle := {palette := .off, showsSubsets}

variable {b : Bool} {s t : String} {a : Automaton} {id : StateId}

theorem paints_sign (sign : Palette → String)
    (h : sign ∈ [Palette.blue, Palette.green, Palette.dim, Palette.reset]) :
    Paints (sign .on) (sign .off) := by
  simp only [List.mem_cons, List.not_mem_nil, or_false] at h
  rcases h with rfl | rfl | rfl | rfl
  · exact .of_isSequence ⟨['3', '4'], by simp, by simp, rfl⟩
  · exact .of_isSequence ⟨['3', '2'], by simp, by simp, rfl⟩
  · exact .of_isSequence ⟨['2'], by simp, by simp, rfl⟩
  · exact .of_isSequence ⟨['0'], by simp, by simp, rfl⟩

theorem paints_stateName (id : StateId) :
    Paints ((colored b).stateName id) ((uncolored b).stateName id) := by
  have hrepr : '\x1b' ∉ id.repr.toList := not_mem_repr (by decide) id
  exact (((paints_sign Palette.blue (by simp)).append (.of_not_mem (by decide))).append
    (.of_not_mem hrepr)).append (paints_sign Palette.reset (by simp))

theorem paints_dimmed (h : '\x1b' ∉ s.toList) : Paints ((colored b).dimmed s) ((uncolored b).dimmed s) :=
  ((paints_sign Palette.dim (by simp)).append (.of_not_mem h)).append (paints_sign Palette.reset (by simp))

theorem paints_subset (subset? : Option StateSet) :
    Paints ((colored b).subset subset?) ((uncolored b).subset subset?) := by
  cases subset? with
  | none => exact .of_not_mem List.not_mem_nil
  | some s =>
    have hblank : Paints " " " " := .of_not_mem (by decide)
    exact hblank.append (paints_dimmed s.escape_not_mem_text)

theorem paints_markers (isStart isAccept : Bool) :
    Paints ((colored b).markers isStart isAccept) ((uncolored b).markers isStart isAccept) := by
  have hmark : ∀ text : String, '\x1b' ∉ text.toList →
      Paints (" " ++ Palette.on.green ++ text ++ Palette.on.reset)
        (" " ++ Palette.off.green ++ text ++ Palette.off.reset) := by
    intro text htext
    have hblank : Paints " " " " := .of_not_mem (by decide)
    exact ((hblank.append (paints_sign Palette.green (by simp))).append (.of_not_mem htext)).append
      (paints_sign Palette.reset (by simp))
  cases isStart <;> cases isAccept
  case false.false => exact .of_not_mem List.not_mem_nil
  all_goals exact hmark _ (by decide)

theorem paints_edge (e : Transition) : Paints ((colored b).edge e) ((uncolored b).edge e) := by
  have hblank : Paints " " " " := .of_not_mem (by decide)
  have hlabel : Paints
      (if e.label.isEpsilon then (colored b).dimmed e.label.text else e.label.text)
      (if e.label.isEpsilon then (uncolored b).dimmed e.label.text else e.label.text) := by
    split
    · exact paints_dimmed e.label.escape_not_mem_text
    · exact .of_not_mem e.label.escape_not_mem_text
  exact (((hlabel.append hblank).append (paints_dimmed (by decide))).append hblank).append
    (paints_stateName e.target)

theorem paints_edges (edges : List Transition) :
    Paints ((colored b).edges edges) ((uncolored b).edges edges) := by
  unfold DumpStyle.edges
  split
  · exact paints_dimmed (by decide)
  · exact .intercalate paints_edge (by decide)

theorem paints_lineText (subset? : Option StateSet) (edges : List Transition) :
    Paints ((colored b).lineText a id subset? edges) ((uncolored b).lineText a id subset? edges) := by
  have hcolon : Paints ": " ": " := .of_not_mem (by decide)
  exact ((((paints_stateName id).append (paints_subset subset?)).append (paints_markers _ _)).append
    hcolon).append (paints_edges edges)

theorem forall₂_paints {ids : List StateId} {lines lines' : List String}
    (h : (colored b).AreLines a ids lines) (h' : (uncolored b).AreLines a ids lines') :
    List.Forall₂ Paints (lines.map (· ++ "\n")) (lines'.map (· ++ "\n")) := by
  induction h generalizing lines' with
  | nil =>
    cases h'
    exact .nil
  | cons hline _ ih =>
    cases h' with
    | cons hline' hlines' =>
      obtain ⟨subset?, hsubset, rfl⟩ := hline
      obtain ⟨subset?', hsubset', rfl⟩ := hline'
      -- what a line shows of a set does not hang on the colours
      obtain rfl : subset? = subset?' := Except.ok.inj (hsubset.symm.trans hsubset')
      exact .cons ((paints_lineText subset? _).append (.of_not_mem (by decide))) (ih hlines')

end DumpStyle

/-- **Colours.** Any automaton can be listed with colours and without, with or without what its states
stand for. The listing without colours has no escape character, and it is the listing with colours
without the sequences in it. -/
theorem Automaton.strip_dump (a : Automaton) (showsSubsets : Bool) :
    ∃ painted plain, a.dump {palette := .on, showsSubsets} = .ok painted ∧
      a.dump {palette := .off, showsSubsets} = .ok plain ∧
      ColourSequence.strip painted.toList = plain.toList ∧ '\x1b' ∉ plain.toList := by
  obtain ⟨painted, hpainted⟩ := a.dump_returns (DumpStyle.colored showsSubsets)
  obtain ⟨plain, hplain⟩ := a.dump_returns (DumpStyle.uncolored showsSubsets)
  obtain ⟨lines, hlines, rfl⟩ := DumpStyle.exists_lines hpainted
  obtain ⟨lines', hlines', rfl⟩ := DumpStyle.exists_lines hplain
  have h := Paints.join (DumpStyle.forall₂_paints hlines hlines')
  exact ⟨_, _, hpainted, hplain, h.strip_eq, h.escape_not_mem⟩

end FiniteAutomata
