import FiniteAutomata.Proofs.Dot.Name
import FiniteAutomata.Proofs.Dump.Complete
/-!
# Graphs can be read back

The text of a graph is read from left to right. Its name tells where it ends (`Dot.IsToken.append_inj`), and
so does each line, since numerals and quoted symbols do; accepting states are over at the line of the start,
which goes on with a small letter, and edges are over at the closing brace. So texts are equal only if names,
starts, accepting states and edges are, and nothing else of an automaton is in its text.

Between quotes stand the name, if it is quoted, and the labels, and nothing else
(`Automaton.quotedTexts_dot`): no name and no symbol ends its quoted text early or goes on behind it.

Main statement: `Dfa.dot_determines`.
-/

namespace FiniteAutomata

namespace Dot

variable {c d : Char} {m n : String} {p q : StateId} {t u : Transition} {r s : List Char}

/-! ## Names -/

theorem quotedChar_append_inj (h : (quotedChar c).toList ++ r = (quotedChar d).toList ++ s) :
    c = d ∧ r = s := by
  rcases quotedChar_cases c with ⟨_, hc⟩ | ⟨hcne, _, hc⟩ <;>
    rcases quotedChar_cases d with ⟨_, hd⟩ | ⟨hdne, _, hd⟩ <;> rw [hc, hd] at h
  case inl.inl => exact List.cons.inj (List.cons.inj h).2
  case inl.inr => exact absurd (List.cons.inj h).1.symm hdne
  case inr.inl => exact absurd (List.cons.inj h).1 hcne
  case inr.inr => exact List.cons.inj h

theorem quotedName_inj (h : quotedName m = quotedName n) : m = n := by
  have hne : ∀ c, (quotedChar c).toList ≠ [] := by
    intro c hnil
    rcases quotedChar_cases c with ⟨_, hc⟩ | ⟨_, _, hc⟩ <;> rw [hc] at hnil <;> cases hnil
  exact String.toList_inj.1 (eq_of_flatMap_eq (fun _ _ _ _ _ _ => quotedChar_append_inj) hne h)

theorem graphName_inj (h : graphName m = graphName n) : m = n := by
  have hmixed : ∀ {m n}, isBare m = true → isBare n = false → graphName m ≠ graphName n := by
    intro m n hm hn h
    rw [graphName_of_isBare hm] at h
    refine (isBare_iff.1 hm).not_isQuoted ?_
    rw [h]
    exact ⟨_, enclosed_quotedName n, toList_graphName_of_not_isBare hn⟩
  cases hm : isBare m <;> cases hn : isBare n
  case false.false =>
    replace h := congrArg String.toList h
    rw [toList_graphName_of_not_isBare hm, toList_graphName_of_not_isBare hn] at h
    exact quotedName_inj (List.append_cancel_right (List.cons.inj h).2)
  case false.true => exact absurd h.symm (hmixed hn hm)
  case true.false => exact absurd h (hmixed hm hn)
  case true.true => rwa [graphName_of_isBare hm, graphName_of_isBare hn] at h

/-! ## Lines -/

theorem acceptLine_append_inj (h : (acceptLine p).toList ++ r = (acceptLine q).toList ++ s) :
    p = q ∧ r = s := by
  have hend : (" [shape=doublecircle];\n").toList = ' ' :: "[shape=doublecircle];\n".toList := rfl
  unfold acceptLine at h
  simp only [String.toList_append, List.append_assoc, hend, List.cons_append] at h
  obtain ⟨hstate, hrest⟩ := numeral_append_inj (head?_of_sign rfl _) (head?_of_sign rfl _)
    (List.append_cancel_left h)
  exact ⟨hstate, List.append_cancel_left (List.cons.inj hrest).2⟩

/-- The line of the start does not begin like that of an accepting state. -/
theorem not_acceptLine_prefix (q : StateId) (s : List Char) :
    ¬ (acceptLine q).toList <+: "    start -> S".toList ++ s := by
  rintro ⟨r, h⟩
  have haccept : ("    S").toList = [' ', ' ', ' ', ' ', 'S'] := rfl
  have hstart : ("    start -> S").toList = ' ' :: ' ' :: ' ' :: ' ' :: 's' :: "tart -> S".toList := rfl
  unfold acceptLine at h
  simp [haccept, hstart] at h

theorem not_edgeLine_prefix (t : Transition) : ¬ (edgeLine t).toList <+: "\x7d\n".toList := by
  rintro ⟨r, h⟩
  have hedge : ("    S").toList = ' ' :: "   S".toList := rfl
  have hbrace : ("\x7d\n").toList = ['\x7d', '\n'] := rfl
  unfold edgeLine at h
  simp [hedge, hbrace] at h

/-- The line of an edge tells where it ends, whatever its symbol. -/
theorem edgeLine_append_inj (ht : t.label = .symbol c) (hu : u.label = .symbol d)
    (h : (edgeLine t).toList ++ r = (edgeLine u).toList ++ s) : t = u ∧ r = s := by
  have harrow : (" -> S").toList = ' ' :: "-> S".toList := rfl
  have hlabel : (" [label=\"").toList = ' ' :: "[label=\"".toList := rfl
  unfold edgeLine at h
  rw [ht, hu] at h
  simp only [String.toList_append, List.append_assoc, harrow, hlabel, List.cons_append] at h
  obtain ⟨hsource, h⟩ := numeral_append_inj (head?_of_sign rfl _) (head?_of_sign rfl _)
    (List.append_cancel_left h)
  obtain ⟨htarget, h⟩ := numeral_append_inj (head?_of_sign rfl _) (head?_of_sign rfl _)
    (List.append_cancel_left (List.cons.inj h).2)
  obtain ⟨rfl, hrest⟩ := Quoted.character_append_inj (List.append_cancel_left (List.cons.inj h).2)
  obtain ⟨source, label, target⟩ := t
  obtain ⟨source', label', target'⟩ := u
  obtain rfl : source = source' := hsource
  obtain rfl : target = target' := htarget
  obtain rfl : label = label' := ht.trans hu.symm
  exact ⟨rfl, List.append_cancel_left hrest⟩

/-! ## Quoted texts -/

/-- What stands between quotes in the first line. -/
def quotedNames (name : String) : List (List Char) := if isBare name then [] else [quotedName name]

theorem quote_not_mem_acceptLine (q : StateId) : '\x22' ∉ (acceptLine q).toList := by
  unfold acceptLine
  simp only [String.toList_append, List.mem_append, not_or]
  exact ⟨⟨by decide, not_mem_repr (by decide) q⟩, by decide⟩

/-- The quoted text of an edge is its label, and the search goes on behind its line. -/
theorem quotedTexts_edgeLines {l : List Transition} {rest : List Char} {bodies : List (List Char)}
    (h : QuotedTexts rest bodies) :
    QuotedTexts ((String.join (l.map edgeLine)).toList ++ rest)
      (l.map (fun t => t.label.text.toList) ++ bodies) := by
  rw [String.toList_join, List.flatMap_map]
  induction l with
  | nil => exact h
  | cons t l ih =>
    have hline : (edgeLine t).toList = ("    S" ++ t.source.repr ++ " -> S" ++ t.target.repr ++
        " [label=").toList ++ '\x22' :: (t.label.text.toList ++ '\x22' :: "];\n".toList) := by
      unfold edgeLine
      simp only [String.toList_append, List.append_assoc]
      rfl
    have hplain : '\x22' ∉ ("    S" ++ t.source.repr ++ " -> S" ++ t.target.repr ++ " [label=").toList := by
      simp only [String.toList_append, List.mem_append, not_or]
      exact ⟨⟨⟨⟨by decide, not_mem_repr (by decide) _⟩, by decide⟩, not_mem_repr (by decide) _⟩, by decide⟩
    rw [List.flatMap_cons, hline]
    simp only [List.append_assoc, List.cons_append, List.map_cons]
    exact .next hplain t.label.enclosed_text (.append (by decide) ih)

end Dot

open Dot

theorem Automaton.quotedTexts_dotBody (a : Automaton) :
    QuotedTexts a.dotBody.toList (a.transitions.map fun t => t.label.text.toList) := by
  have haccept : '\x22' ∉ (String.join (a.acceptStates.map acceptLine)).toList := by
    rw [String.toList_join, List.flatMap_map]
    intro h
    obtain ⟨q, _, hq⟩ := List.mem_flatMap.1 h
    exact quote_not_mem_acceptLine q hq
  have hbrace : QuotedTexts "\x7d\n".toList [] := .none (by decide)
  have hedges := quotedTexts_edgeLines (l := a.transitions) hbrace
  unfold dotBody
  rw [List.append_nil] at hedges
  simp only [String.toList_append, List.append_assoc] at hedges ⊢
  -- no line in front of the edges has a quote
  exact .append (by decide) (.append haccept (.append (by decide)
    (.append (not_mem_repr (by decide) _) (.append (by decide) hedges))))

/-- **Quoted texts.** Between quotes stand the name, unless it is a word, and then the labels in their
order. -/
theorem Automaton.quotedTexts_dot (a : Automaton) (name : String) :
    QuotedTexts (a.dot name).toList
      (quotedNames name ++ a.transitions.map fun t => t.label.text.toList) := by
  have hbody := a.quotedTexts_dotBody
  rw [dot_eq]
  unfold quotedNames
  cases hbare : isBare name with
  | true =>
    have hname : '\x22' ∉ name.toList := fun h =>
      absurd ((isBare_iff.1 hbare).forall_isWordChar _ h) (by decide)
    rw [graphName_of_isBare hbare]
    simp only [String.toList_append, List.append_assoc]
    exact .append (by decide) (.append hname (.append (by decide) hbody))
  | false =>
    simp only [String.toList_append, toList_graphName_of_not_isBare hbare, List.append_assoc,
      List.cons_append, List.nil_append]
    exact .next (by decide) (enclosed_quotedName name) (.append (by decide) hbody)

/-! ## Whole graphs -/

namespace Dfa

variable {D E : Dfa}

/-- The automata have the same start, accepting states and edges. -/
structure SameDrawing (D E : Dfa) : Prop where
  start_eq : D.start = E.start
  isAccept_eq : ∀ q, D.isAccept q = E.isAccept q
  edge_iff : ∀ p c q, D.Edge p c q ↔ E.Edge p c q

theorem mem_acceptStates {q : StateId} :
    q ∈ (Automaton.deterministic D).acceptStates ↔ D.isAccept q = true := by
  have hlt : D.isAccept q = true → q < D.size := fun h => Nat.lt_of_not_le fun hle => by
    rw [isAccept_of_size_le hle] at h
    cases h
  show q ∈ (List.range D.size).filter D.isAccept ↔ _
  rw [List.mem_filter, List.mem_range]
  exact ⟨And.right, fun h => ⟨hlt h, h⟩⟩

theorem exists_symbol_of_mem {t : Transition} (h : t ∈ D.transitions) : ∃ c, t.label = .symbol c := by
  obtain ⟨c, hc, _⟩ := mem_transitions.1 h
  exact ⟨c, hc⟩

theorem edge_iff_mem_transitions {p q : StateId} {c : Char} :
    D.Edge p c q ↔ ⟨p, .symbol c, q⟩ ∈ D.transitions := by
  rw [mem_transitions]
  exact ⟨fun h => ⟨c, rfl, h⟩, fun ⟨d, hd, h⟩ => Label.symbol.inj hd ▸ h⟩

/-- **Read back.** What is behind the opening brace tells the start, the accepting states and the edges. -/
theorem eq_of_dotBody_eq
    (h : (Automaton.deterministic D).dotBody = (Automaton.deterministic E).dotBody) :
    (Automaton.deterministic D).acceptStates = (Automaton.deterministic E).acceptStates ∧
      D.start = E.start ∧ D.transitions = E.transitions := by
  unfold Automaton.dotBody at h
  replace h := congrArg String.toList h
  simp only [String.toList_append, String.toList_join, List.flatMap_map, List.append_assoc] at h
  obtain ⟨haccept, h⟩ := flatMap_append_inj (fun _ _ _ _ _ _ => acceptLine_append_inj)
    (fun q _ => not_acceptLine_prefix q _) (fun q _ => not_acceptLine_prefix q _)
    (List.append_cancel_left h)
  have hend : (";\n").toList = [';', '\n'] := rfl
  simp only [hend, List.cons_append, List.nil_append] at h
  obtain ⟨hstart, h⟩ := numeral_append_inj (head?_of_sign rfl _) (head?_of_sign rfl _)
    (List.append_cancel_left h)
  have hedge : ∀ t ∈ D.transitions, ∀ u ∈ E.transitions, ∀ r s,
      (edgeLine t).toList ++ r = (edgeLine u).toList ++ s → t = u ∧ r = s := by
    intro t ht u hu r s h
    obtain ⟨c, hc⟩ := exists_symbol_of_mem ht
    obtain ⟨d, hd⟩ := exists_symbol_of_mem hu
    exact edgeLine_append_inj hc hd h
  obtain ⟨hedges, _⟩ := flatMap_append_inj hedge (fun t _ => not_edgeLine_prefix t)
    (fun t _ => not_edgeLine_prefix t) (List.cons.inj (List.cons.inj h).2).2
  exact ⟨haccept, hstart, hedges⟩

theorem SameDrawing.acceptStates_eq (h : SameDrawing D E) :
    (Automaton.deterministic D).acceptStates = (Automaton.deterministic E).acceptStates := by
  have hascending : ∀ dfa : Dfa, (Automaton.deterministic dfa).acceptStates.Pairwise (· < ·) :=
    fun dfa => List.pairwise_lt_range.filter _
  refine (hascending D).eq_of_mem_iff (hascending E) fun q => ?_
  rw [mem_acceptStates, mem_acceptStates, h.isAccept_eq]

theorem SameDrawing.transitions_eq (h : SameDrawing D E) : D.transitions = E.transitions := by
  refine (Automaton.deterministic D).transitions_ascending.eq_of_mem_iff
    (Automaton.deterministic E).transitions_ascending fun t => ?_
  show t ∈ D.transitions ↔ t ∈ E.transitions
  simp only [mem_transitions, h.edge_iff]

/-- Automata are drawn alike exactly if they have the same start, accepting states and edges. -/
theorem dotBody_eq_iff :
    (Automaton.deterministic D).dotBody = (Automaton.deterministic E).dotBody ↔ SameDrawing D E := by
  constructor
  · intro h
    obtain ⟨haccept, hstart, hedges⟩ := eq_of_dotBody_eq h
    refine ⟨hstart, fun q => ?_, fun p c q => ?_⟩
    · rw [Bool.eq_iff_iff, ← mem_acceptStates, haccept, mem_acceptStates]
    · rw [edge_iff_mem_transitions, hedges, edge_iff_mem_transitions]
  · intro h
    have hstart : (Automaton.deterministic D).start = (Automaton.deterministic E).start := h.start_eq
    have hedges : (Automaton.deterministic D).transitions = (Automaton.deterministic E).transitions :=
      h.transitions_eq
    unfold Automaton.dotBody
    rw [h.acceptStates_eq, hstart, hedges]

/-- **Unambiguous graphs.** Texts are equal exactly if the names are and the automata have the same start,
accepting states and edges. And the texts between quotes, each of them up to its own closing quote, are the
name, unless it is a word, and the labels. -/
theorem dot_determines (D E : Dfa) (m n : String) :
    ((Automaton.deterministic D).dot m = (Automaton.deterministic E).dot n ↔
      m = n ∧ SameDrawing D E) ∧
    ∀ bodies, QuotedTexts ((Automaton.deterministic D).dot m).toList bodies ↔
      bodies = quotedNames m ++ D.transitions.map fun t => t.label.text.toList := by
  have hquoted := (Automaton.deterministic D).quotedTexts_dot m
  refine ⟨⟨fun h => ?_, ?_⟩, fun bodies => ⟨fun h => h.unique hquoted, fun h => h ▸ hquoted⟩⟩
  · have hname := Automaton.eq_graphName_of_dot_eq (isToken_graphName n)
      (h.trans ((Automaton.deterministic E).dot_eq n))
    obtain rfl := graphName_inj hname
    rw [Automaton.dot_eq, Automaton.dot_eq, String.append_right_inj] at h
    exact ⟨rfl, dotBody_eq_iff.1 h⟩
  · rintro ⟨rfl, h⟩
    rw [Automaton.dot_eq, Automaton.dot_eq, dotBody_eq_iff.2 h]

end Dfa

end FiniteAutomata
