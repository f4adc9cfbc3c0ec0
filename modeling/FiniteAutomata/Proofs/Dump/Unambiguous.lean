import FiniteAutomata.Proofs.Dfa.Minimal
import FiniteAutomata.Proofs.Dfa.Simulation
import FiniteAutomata.Proofs.Dump.Complete
/-!
# Listings can be read back

The listing of a deterministic automaton is read from left to right. A line ends at the line feed, which is
in none of its parts; the sign behind a state's name and markers is the first colon; a quoted symbol and a
numeral tell where they end (`Quoted.character_append_inj`, `numeral_append_inj`). So a symbol may be a
comma, a blank, an arrow or `∅` without being taken for a separator, and automata that are listed alike
have the same states and edges.

With edges that read nothing this is lost: `ε` is written both for them and for the symbol.

Main statement: `Dfa.dump_determines`.
-/

namespace FiniteAutomata

/-! ## Texts in a row -/

/-- The text is at its end, or a comma comes. -/
def AtComma (s : List Char) : Prop := ∀ c ∈ s.head?, c = ','

theorem atComma_nil : AtComma [] := fun _ h => by cases h

theorem atComma_cons (s : List Char) : AtComma (',' :: s) := fun _ h => (Option.mem_some.1 h).symm

section

variable {α : Type} {write : α → String} {separator : String} {blank : List Char}

theorem toList_intercalate_cons (x : α) (l : List α) :
    (separator.intercalate ((x :: l).map write)).toList =
      (write x).toList ++ l.flatMap fun y => separator.toList ++ (write y).toList := by
  induction l generalizing x with
  | nil => simp
  | cons y l ih =>
    rw [List.map_cons, List.map_cons, String.intercalate_cons_cons, ← List.map_cons, String.toList_append,
      String.toList_append, ih, List.flatMap_cons]
    simp only [List.append_assoc]

variable (hseparator : separator.toList = ',' :: blank)
  (hwrite : ∀ {x y s t}, AtComma s → AtComma t → (write x).toList ++ s = (write y).toList ++ t →
    x = y ∧ s = t)

include hseparator in
theorem atComma_flatMap (l : List α) :
    AtComma (l.flatMap fun y => separator.toList ++ (write y).toList) := by
  cases l with
  | nil => exact atComma_nil
  | cons y l =>
    rw [List.flatMap_cons, hseparator]
    exact atComma_cons _

include hseparator hwrite

theorem flatMap_separator_inj {l m : List α}
    (h : (l.flatMap fun y => separator.toList ++ (write y).toList) =
      m.flatMap fun y => separator.toList ++ (write y).toList) : l = m := by
  induction l generalizing m with
  | nil =>
    cases m with
    | nil => rfl
    | cons y m => simp [hseparator] at h
  | cons x l ih =>
    cases m with
    | nil => simp [hseparator] at h
    | cons y m =>
      rw [List.flatMap_cons, List.flatMap_cons, List.append_assoc, List.append_assoc] at h
      obtain ⟨rfl, hrest⟩ := hwrite (atComma_flatMap hseparator l) (atComma_flatMap hseparator m)
        (List.append_cancel_left h)
      rw [ih hrest]

/-- Texts between commas can be told apart if each of them tells where it ends. -/
theorem intercalate_inj (hne : ∀ x, (write x).toList ≠ []) {l m : List α}
    (h : separator.intercalate (l.map write) = separator.intercalate (m.map write)) : l = m := by
  replace h := congrArg String.toList h
  cases l with
  | nil =>
    cases m with
    | nil => rfl
    | cons y m =>
      rw [toList_intercalate_cons] at h
      exact absurd (List.append_eq_nil_iff.1 h.symm).1 (hne y)
  | cons x l =>
    cases m with
    | nil =>
      rw [toList_intercalate_cons] at h
      exact absurd (List.append_eq_nil_iff.1 h).1 (hne x)
    | cons y m =>
      rw [toList_intercalate_cons, toList_intercalate_cons] at h
      obtain ⟨rfl, hrest⟩ := hwrite (atComma_flatMap hseparator l) (atComma_flatMap hseparator m) h
      rw [flatMap_separator_inj hseparator hwrite hrest]

end

theorem lines_inj {l m : List String} (hl : ∀ line ∈ l, '\n' ∉ line.toList)
    (hm : ∀ line ∈ m, '\n' ∉ line.toList)
    (h : String.join (l.map (· ++ "\n")) = String.join (m.map (· ++ "\n"))) : l = m := by
  replace h := congrArg String.toList h
  have hfeed : ("\n").toList = ['\n'] := rfl
  simp only [String.toList_join, List.flatMap_map, String.toList_append, hfeed] at h
  refine eq_of_flatMap_eq ?_ (fun line => by simp) h
  intro line hline line' hline' s t h
  rw [List.append_assoc, List.append_assoc] at h
  obtain ⟨htext, hrest⟩ := append_inj_of_not_mem (hl line hline) (hm line' hline') h
  exact ⟨String.toList_inj.1 htext, hrest⟩

theorem exists_of_forall₂ {α β : Type} {R R' : α → β → Prop} {l : List α} {m : List β}
    (h : List.Forall₂ R l m) (h' : List.Forall₂ R' l m) : ∀ x ∈ l, ∃ y, R x y ∧ R' x y := by
  induction h with
  | nil => simp
  | cons hxy _ ih =>
    obtain ⟨hxy', hrest⟩ := List.forall₂_cons.1 h'
    exact List.forall_mem_cons.2 ⟨⟨_, hxy, hxy'⟩, ih hrest⟩

/-! ## Parts of a line -/

theorem atComma_isDigit {s : List Char} (h : AtComma s) : ∀ c ∈ s.head?, c.isDigit = false := by
  intro c hc
  rw [h c hc]
  rfl

theorem repr_ne_nil (n : Nat) : n.repr.toList ≠ [] := by
  rw [Nat.toList_repr]
  exact Nat.toDigits_ne_nil

theorem StateSet.listed_inj {separator : String} {blank : List Char}
    (hseparator : separator.toList = ',' :: blank) {S T : StateSet}
    (h : S.listed separator = T.listed separator) : S = T := by
  unfold listed at h
  rw [String.append_left_inj, String.append_right_inj] at h
  refine Ordered.ext (intercalate_inj hseparator ?_ repr_ne_nil h)
  exact fun hs ht h => numeral_append_inj (atComma_isDigit hs) (atComma_isDigit ht) h

theorem StateSet.text_inj {S T : StateSet} (h : S.text = T.text) : S = T := by
  have hcomma : (",").toList = ',' :: [] := rfl
  exact listed_inj hcomma h

/-! ## Lines of deterministic automata -/

namespace Dfa

variable {D E : Dfa} {b : Bool} {id : StateId} {c d : Char} {p q : StateId}

/-- Symbols and targets of the edges of a state, in order. -/
def edgeList (dfa : Dfa) (id : StateId) : List (Char × StateId) :=
  (dfa.states[id]?.map fun s => s.edges.toList).getD []

theorem mem_edgeList : (c, q) ∈ D.edgeList p ↔ D.Edge p c q := by
  unfold edgeList Edge
  cases D.states[p]? with
  | none => simp
  | some s => simp [SymbolMap.get?_eq_some_iff, Ordered.mem_toList]

theorem edgesOf_deterministic (D : Dfa) (id : StateId) :
    (Automaton.deterministic D).edgesOf id =
      (D.edgeList id).map fun e => ⟨id, .symbol e.1, e.2⟩ := by
  rw [Automaton.edgesOf]
  unfold edgeList
  cases D.states[id]? with
  | none => rfl
  | some s => rfl

/-- A listing without colours, with or without subsets. -/
abbrev plain (showsSubsets : Bool) : DumpStyle := {showsSubsets}

/-- An edge as it is written without colours. -/
def edgeText (e : Char × StateId) : String := Quoted.character e.1 ++ " → S" ++ e.2.repr

theorem edgeText_ne_nil (e : Char × StateId) : (edgeText e).toList ≠ [] := by
  unfold edgeText
  simp

theorem edgeText_append_inj {e f : Char × StateId} {s t : List Char} (hs : AtComma s) (ht : AtComma t)
    (h : (edgeText e).toList ++ s = (edgeText f).toList ++ t) : e = f ∧ s = t := by
  unfold edgeText at h
  simp only [String.toList_append, List.append_assoc] at h
  obtain ⟨hsymbol, h⟩ := Quoted.character_append_inj h
  obtain ⟨htarget, hrest⟩ := numeral_append_inj (atComma_isDigit hs) (atComma_isDigit ht)
    (List.append_cancel_left h)
  exact ⟨Prod.ext hsymbol htarget, hrest⟩

theorem edge_plain (e : Char × StateId) :
    (plain b).edge ⟨id, .symbol e.1, e.2⟩ = edgeText e := by
  have hsign : (" " : String) ++ ("" ++ "→" ++ "") ++ " " ++ "" ++ "S" = " → S" := by decide
  show Quoted.character e.1 ++ " " ++ ("" ++ "→" ++ "") ++ " " ++ ("" ++ "S" ++ e.2.repr ++ "") = _
  unfold edgeText
  rw [← hsign]
  simp only [String.append_assoc, String.empty_append, String.append_empty]

theorem edges_eq (hne : D.edgeList id ≠ []) :
    (plain b).edges ((Automaton.deterministic D).edgesOf id) =
      ", ".intercalate ((D.edgeList id).map edgeText) := by
  rw [edgesOf_deterministic, DumpStyle.edges_of_ne_nil (by simpa using hne), List.map_map]
  exact congrArg _ (List.map_congr_left fun e _ => edge_plain e)

theorem edgesOf_eq_nil_iff : (Automaton.deterministic D).edgesOf id = [] ↔ D.edgeList id = [] := by
  rw [edgesOf_deterministic, List.map_eq_nil_iff]

theorem edges_inj (h : (plain b).edges ((Automaton.deterministic D).edgesOf id) =
    (plain b).edges ((Automaton.deterministic E).edgesOf id)) : D.edgeList id = E.edgeList id := by
  have hnil : D.edgeList id = [] ↔ E.edgeList id = [] := by
    rw [← edgesOf_eq_nil_iff, ← edgesOf_eq_nil_iff, ← DumpStyle.edges_eq_dimmed_iff, h,
      DumpStyle.edges_eq_dimmed_iff]
  by_cases hD : D.edgeList id = []
  · rw [hD, hnil.1 hD]
  · rw [edges_eq hD, edges_eq (mt hnil.2 hD)] at h
    have hcomma : (", ").toList = ',' :: [' '] := rfl
    exact intercalate_inj hcomma edgeText_append_inj edgeText_ne_nil h

theorem subset_append_inj {S T : StateSet} {s t : String}
    (h : (plain b).subset (some S) ++ s = (plain b).subset (some T) ++ t) : S = T ∧ s = t := by
  have htext : ∀ (S : StateSet) (s : String), ((plain b).subset (some S) ++ s).toList =
      ' ' :: '\x7b' :: ((",".intercalate (S.toList.map Nat.repr)).toList ++ '\x7d' :: s.toList) := by
    intro S s
    show ((" " ++ ("" ++ S.text ++ "")) ++ s).toList = _
    unfold StateSet.text StateSet.listed
    simp
  have hbrace : ∀ S : StateSet, '\x7d' ∉ (",".intercalate (S.toList.map Nat.repr)).toList :=
    DumpStyle.not_mem_members (by decide) (by decide)
  replace h := congrArg String.toList h
  rw [htext, htext] at h
  obtain ⟨hmembers, hrest⟩ :=
    append_inj_of_not_mem (hbrace S) (hbrace T) (List.cons.inj (List.cons.inj h).2).2
  refine ⟨StateSet.text_inj ?_, String.toList_inj.1 hrest⟩
  unfold StateSet.text StateSet.listed
  rw [String.toList_inj.1 hmembers]

/-- The markers behind a name end at the colon. -/
theorem markers_append_inj {x y x' y' : Bool} {s t : String}
    (h : (plain b).markers x y ++ (": " ++ s) = (plain b).markers x' y' ++ (": " ++ t)) :
    x = x' ∧ y = y' ∧ s = t := by
  have hcolon : ∀ b x y, ':' ∉ ((plain b).markers x y).toList := by
    intro b x y
    cases b <;> cases x <;> cases y <;> decide
  have htell : ∀ b x y x' y', (plain b).markers x y = (plain b).markers x' y' → x = x' ∧ y = y' := by
    intro b x y x' y'
    cases b <;> cases x <;> cases y <;> cases x' <;> cases y' <;> decide
  have hsign : (": ").toList = [':', ' '] := rfl
  replace h := congrArg String.toList h
  simp only [String.toList_append, hsign, List.cons_append, List.nil_append] at h
  obtain ⟨hmarkers, hrest⟩ := append_inj_of_not_mem (hcolon b x y) (hcolon b x' y') h
  obtain ⟨hx, hy⟩ := htell b x y x' y' (String.toList_inj.1 hmarkers)
  exact ⟨hx, hy, String.toList_inj.1 (List.cons.inj hrest).2⟩

/-- The set that a line shows tells where it ends, and so does its absence. -/
theorem shownSubset_append_inj {S T : Option StateSet} {s t : String}
    (hS : (plain b).shownSubset? (.deterministic D) id = .ok S)
    (hT : (plain b).shownSubset? (.deterministic E) id = .ok T)
    (h : (plain b).subset S ++ s = (plain b).subset T ++ t) : S = T ∧ s = t := by
  cases b with
  | false =>
    obtain rfl : none = S := Except.ok.inj hS
    obtain rfl : none = T := Except.ok.inj hT
    exact ⟨rfl, (String.append_right_inj _).1 h⟩
  | true =>
    have hsome : ∀ {dfa : Dfa} {S : Option StateSet},
        (plain true).shownSubset? (.deterministic dfa) id = .ok S → ∃ members, S = some members := by
      intro dfa S hS
      obtain ⟨state, _, hS⟩ := exists_of_bind_eq_ok
        (show (do return some (← dfa.state id).subset : Checked (Option StateSet)) = .ok S from hS)
      exact ⟨state.subset, (Except.ok.inj hS).symm⟩
    obtain ⟨members, rfl⟩ := hsome hS
    obtain ⟨members', rfl⟩ := hsome hT
    obtain ⟨rfl, hrest⟩ := subset_append_inj h
    exact ⟨rfl, hrest⟩

/-- The automata have the same at a state, and it stands for the same if that is shown. -/
structure AgreeAt (showsSubsets : Bool) (D E : Dfa) (id : StateId) : Prop where
  start_iff : id = D.start ↔ id = E.start
  isAccept_eq : D.isAccept id = E.isAccept id
  edgeList_eq : D.edgeList id = E.edgeList id
  shownSubset_eq : (plain showsSubsets).shownSubset? (.deterministic D) id =
    (plain showsSubsets).shownSubset? (.deterministic E) id

/-- **One line** tells all of its state. -/
theorem agreeAt_of_line {line : String}
    (hD : ∃ S, (plain b).shownSubset? (.deterministic D) id = .ok S ∧
      line = (plain b).lineText (.deterministic D) id S ((Automaton.deterministic D).edgesOf id))
    (hE : ∃ T, (plain b).shownSubset? (.deterministic E) id = .ok T ∧
      line = (plain b).lineText (.deterministic E) id T ((Automaton.deterministic E).edgesOf id)) :
    AgreeAt b D E id := by
  obtain ⟨S, hS, rfl⟩ := hD
  obtain ⟨T, hT, h⟩ := hE
  unfold DumpStyle.lineText at h
  simp only [String.append_assoc, String.append_right_inj] at h
  obtain ⟨hsubset, hrest⟩ := shownSubset_append_inj hS hT h
  obtain ⟨hstart, hisAccept, hedges⟩ := markers_append_inj hrest
  rw [← hsubset] at hT
  exact ⟨decide_eq_decide.1 hstart, hisAccept, edges_inj hedges, hS.trans hT.symm⟩

/-- **All lines.** Automata that are listed alike agree on every state. -/
theorem agreeAt_of_dump {text : String} (hD : (Automaton.deterministic D).dump (plain b) = .ok text)
    (hE : (Automaton.deterministic E).dump (plain b) = .ok text) :
    D.size = E.size ∧ ∀ id < D.size, AgreeAt b D E id := by
  have hinline : (plain b).IsInline := DumpStyle.isInline_ofChoice false b
  have honeLine : ∀ {dfa : Dfa} {ids lines}, (plain b).AreLines (.deterministic dfa) ids lines →
      ∀ line ∈ lines, '\n' ∉ line.toList := by
    intro dfa ids lines h
    induction h with
    | nil => simp
    | cons hline _ ih =>
      obtain ⟨S, _, rfl⟩ := hline
      exact List.forall_mem_cons.2 ⟨DumpStyle.newline_not_mem_lineText hinline S _, ih⟩
  obtain ⟨lines, hlines, htext⟩ := DumpStyle.exists_lines hD
  obtain ⟨lines', hlines', htext'⟩ := DumpStyle.exists_lines hE
  obtain rfl := lines_inj (honeLine hlines) (honeLine hlines') (htext.symm.trans htext')
  have hsize : D.size = E.size := by
    have h := hlines.length_eq.trans hlines'.length_eq.symm
    rwa [Automaton.states, Automaton.states, List.length_range, List.length_range] at h
  have hstates : (Automaton.deterministic D).states = (Automaton.deterministic E).states :=
    congrArg List.range hsize
  rw [← hstates] at hlines'
  refine ⟨hsize, fun id hid => ?_⟩
  obtain ⟨line, hD, hE⟩ := exists_of_forall₂ hlines hlines' id (List.mem_range.2 hid)
  exact agreeAt_of_line hD hE

/-! ## Whole automata -/

/-- The automaton comes from determinizing or from merging states. -/
inductive Built : Dfa → Prop
  | determinized {nfa : Nfa} {dfa : Dfa} (wellFormed : nfa.WellFormed) (eq : ofNfa nfa = .ok dfa) :
    Built dfa
  | merged {source dfa : Dfa} (wellFormed : source.WellFormed) (eq : source.minimal = .ok dfa) :
    Built dfa

theorem Built.wellFormed (h : Built D) : D.WellFormed := by
  cases h with
  | determinized hnfa heq => exact Explored.wellFormed ((ofNfa_returns hnfa).of_eq_ok heq)
  | merged hsource heq =>
    obtain ⟨block, hquotient⟩ := (minimal_returns hsource).of_eq_ok heq
    exact hquotient.wellFormed hsource

/-- The automata have the same states and edges, number by number. -/
structure SameGraph (D E : Dfa) : Prop where
  size_eq : D.size = E.size
  start_eq : D.start = E.start
  isAccept_eq : ∀ q, D.isAccept q = E.isAccept q
  edge_iff : ∀ p c q, D.Edge p c q ↔ E.Edge p c q

theorem sameGraph_of_agreeAt (hstart : D.start < D.size) (hsize : D.size = E.size)
    (h : ∀ id < D.size, AgreeAt b D E id) : SameGraph D E where
  size_eq := hsize
  start_eq := (h D.start hstart).start_iff.1 rfl
  isAccept_eq := by
    intro q
    by_cases hq : q < D.size
    · exact (h q hq).isAccept_eq
    · rw [isAccept_of_size_le (Nat.not_lt.1 hq), isAccept_of_size_le (hsize ▸ Nat.not_lt.1 hq)]
  edge_iff := by
    intro p c q
    by_cases hp : p < D.size
    · rw [← mem_edgeList, (h p hp).edgeList_eq, mem_edgeList]
    · exact iff_of_false (fun he => hp (lt_size_of_edge he)) fun he => hp (hsize ▸ lt_size_of_edge he)

/-- **Unambiguous listings.** Listings are made of all automata. One that is listed like an automaton that
was built has the same states and edges, and if what states stand for is listed, they stand for the same
too. -/
theorem dump_determines (hD : Built D) (E : Dfa) :
    (∃ text text', (Automaton.deterministic D).plainDump = .ok text ∧
      (Automaton.deterministic E).plainDump = .ok text' ∧ (text = text' → SameGraph D E)) ∧
    ∃ text text', (Automaton.deterministic D).dump {showsSubsets := true} = .ok text ∧
      (Automaton.deterministic E).dump {showsSubsets := true} = .ok text' ∧
      (text = text' → SameGraph D E ∧ ∀ q < D.size, ∃ s s', D.state q = .ok s ∧ E.state q = .ok s' ∧
        s.subset = s'.subset) := by
  have hstart : D.start < D.size := hD.wellFormed.start_lt
  constructor
  · obtain ⟨text, htext⟩ := (Automaton.deterministic D).plainDump_returns
    obtain ⟨text', htext'⟩ := (Automaton.deterministic E).plainDump_returns
    refine ⟨text, text', htext, htext', ?_⟩
    rintro rfl
    obtain ⟨hsize, h⟩ := agreeAt_of_dump (b := false) htext htext'
    exact sameGraph_of_agreeAt hstart hsize h
  · obtain ⟨text, htext⟩ := (Automaton.deterministic D).dump_returns {showsSubsets := true}
    obtain ⟨text', htext'⟩ := (Automaton.deterministic E).dump_returns {showsSubsets := true}
    refine ⟨text, text', htext, htext', ?_⟩
    rintro rfl
    obtain ⟨hsize, h⟩ := agreeAt_of_dump (b := true) htext htext'
    refine ⟨sameGraph_of_agreeAt hstart hsize h, fun q hq => ?_⟩
    have hs : D.state q = .ok D.states[q] := state_eq_ok.2 (Array.getElem?_eq_getElem hq)
    have hq' : q < E.states.size := Nat.lt_of_lt_of_eq hq hsize
    have hs' : E.state q = .ok E.states[q] := state_eq_ok.2 (Array.getElem?_eq_getElem hq')
    have hshown : (do return some (← D.state q).subset : Checked (Option StateSet)) =
      (do return some (← E.state q).subset) := (h q hq).shownSubset_eq
    rw [hs, hs'] at hshown
    exact ⟨_, _, hs, hs', Option.some.inj (Except.ok.inj hshown)⟩

/-- A comma and the sign for no edges lead from state 0 to state 1. -/
def punctuated : Nfa where
  states := #[⟨.ofList [(',', .singleton 1), ('∅', .singleton 1)], .empty⟩, ⟨.empty, .empty⟩]
  start := 0
  accept := .singleton 1

/-- `punctuated` determinized. -/
def punctuatedSets : Dfa where
  states := #[⟨.singleton 0, .ofList [(',', 1), ('∅', 1)], false⟩, ⟨.singleton 1, .empty, true⟩]
  start := 0
  alphabet := .ofList [',', '∅']

/-- The same edges, where state 1 stands for two states. -/
def punctuatedBlocks : Dfa where
  states := #[⟨.singleton 0, .ofList [(',', 1), ('∅', 1)], false⟩, ⟨.ofList [1, 2], .empty, true⟩]
  start := 0
  alphabet := .ofList [',', '∅']

theorem dump_determines_punctuated :
    Built punctuatedSets ∧
    (Automaton.deterministic punctuatedSets).plainDump =
      .ok "S0 (start): , → S1, ∅ → S1\nS1 (accept): ∅\n" ∧
    (Automaton.deterministic punctuatedBlocks).plainDump =
      .ok "S0 (start): , → S1, ∅ → S1\nS1 (accept): ∅\n" ∧
    SameGraph punctuatedSets punctuatedBlocks := by
  have hwf : punctuated.WellFormed := by decide
  have hofNfa : ofNfa punctuated = .ok punctuatedSets := by decide +kernel
  have hsets : (Automaton.deterministic punctuatedSets).plainDump =
      .ok "S0 (start): , → S1, ∅ → S1\nS1 (accept): ∅\n" := by decide +kernel
  have hblocks : (Automaton.deterministic punctuatedBlocks).plainDump =
      .ok "S0 (start): , → S1, ∅ → S1\nS1 (accept): ∅\n" := by decide +kernel
  have hbuilt := Built.determinized hwf hofNfa
  obtain ⟨⟨text, text', htext, htext', h⟩, _⟩ := dump_determines hbuilt punctuatedBlocks
  refine ⟨hbuilt, hsets, hblocks, h ?_⟩
  exact (Except.ok.inj (htext.symm.trans hsets)).trans (Except.ok.inj (hblocks.symm.trans htext'))

end Dfa

end FiniteAutomata
