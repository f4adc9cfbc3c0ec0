import FiniteAutomata.Proofs.Dump
import FiniteAutomata.Proofs.Text.Quoted
import FiniteAutomata.Proofs.Transitions
/-!
# Listings are complete

The transitions of an automaton are those of its states one after the other (`transitions_eq_flatMap`), and
they ascend strictly (`transitions_ascending`). So a walk through states and edges side by side finds the
edges of a state in front when it comes to that state, and leaves none over (`lines_flatMap`).

Main statement: `Automaton.dump_complete`.
-/

namespace FiniteAutomata

variable {a : Automaton} {id : StateId} {t u : Transition}

/-! ## The order of transitions -/

theorem Label.compare_self (l : Label) : l.compare l = .eq := by
  cases l with
  | symbol c => simp [compare]
  | epsilon => rfl

theorem Label.compare_swap (l m : Label) : (l.compare m).swap = m.compare l := by
  cases l with
  | epsilon => cases m <;> rfl
  | symbol c =>
    cases m with
    | epsilon => rfl
    | symbol d =>
      unfold compare
      rcases Nat.lt_trichotomy c.toNat d.toNat with h | h | h
      · simp [h, Nat.lt_asymm h]
      · simp [h]
      · simp [h, Nat.lt_asymm h]

theorem Label.compare_symbol_eq_lt {c d : Char} (h : c.toNat < d.toNat) :
    (symbol c).compare (symbol d) = .lt := if_pos h

namespace Transition

/-- `t` comes strictly before `u` in the order by source, then label, then target. -/
def Before (t u : Transition) : Prop := t.compare u = .lt

theorem compare_swap (t u : Transition) : (t.compare u).swap = u.compare t := by
  unfold Transition.compare
  rw [Ordering.swap_then, Ordering.swap_then, Nat.compare_swap, Nat.compare_swap, Label.compare_swap]

theorem Before.asymm (h : t.Before u) : ¬ u.Before t := by
  unfold Before at h ⊢
  rw [← compare_swap, h]
  decide

instance : Std.Asymm Before := ⟨fun _ _ => Before.asymm⟩

theorem before_iff : t.Before u ↔ t.source < u.source ∨ t.source = u.source ∧
    (t.label.compare u.label = .lt ∨ t.label.compare u.label = .eq ∧ t.target < u.target) := by
  unfold Before Transition.compare
  rw [Ordering.then_eq_lt, Ordering.then_eq_lt, Nat.compare_eq_lt, Nat.compare_eq_eq, Nat.compare_eq_lt]

theorem before_of_source (h : t.source < u.source) : t.Before u := before_iff.2 (Or.inl h)

theorem before_of_label {source p q : StateId} {l m : Label} (h : l.compare m = .lt) :
    Before ⟨source, l, p⟩ ⟨source, m, q⟩ := before_iff.2 (Or.inr ⟨rfl, Or.inl h⟩)

theorem before_of_target {source p q : StateId} (l : Label) (h : p < q) :
    Before ⟨source, l, p⟩ ⟨source, l, q⟩ := before_iff.2 (Or.inr ⟨rfl, Or.inr ⟨l.compare_self, h⟩⟩)

end Transition

open Transition (Before before_of_source before_of_label before_of_target)

/-- The edges of a state of a nondeterministic automaton ascend: symbols first, and targets of each label. -/
theorem NfaState.transitions_ascending (s : NfaState) (source : StateId) :
    (s.transitions source).Pairwise Before := by
  have htargets : ∀ (l : Label) (targets : StateSet),
      (targets.toList.map (⟨source, l, ·⟩)).Pairwise Before := fun l targets =>
    List.pairwise_map.2 (targets.ascending.imp (before_of_target l))
  unfold transitions
  refine List.pairwise_append.2 ⟨List.pairwise_flatMap.2 ⟨?_, ?_⟩, htargets .epsilon s.epsilon, ?_⟩
  · exact fun (c, targets) _ => htargets (.symbol c) targets
  · refine s.symbols.ascending.imp fun {x y} hxy => ?_
    intro t ht u hu
    obtain ⟨p, _, rfl⟩ := List.mem_map.1 ht
    obtain ⟨q, _, rfl⟩ := List.mem_map.1 hu
    exact before_of_label (Label.compare_symbol_eq_lt hxy)
  · intro t ht u hu
    obtain ⟨⟨c, targets⟩, _, ht⟩ := List.mem_flatMap.1 ht
    obtain ⟨p, _, rfl⟩ := List.mem_map.1 ht
    obtain ⟨q, _, rfl⟩ := List.mem_map.1 hu
    exact before_of_label rfl

theorem DfaState.edges_ascending (s : DfaState) (source : StateId) :
    (s.edges.toList.map fun (c, target) => (⟨source, .symbol c, target⟩ : Transition)).Pairwise Before :=
  List.pairwise_map.2 <| s.edges.ascending.imp fun h => before_of_label (Label.compare_symbol_eq_lt h)

theorem flatMap_zipIdx {α β : Type} (l : List α) (f : α × Nat → List β) :
    l.zipIdx.flatMap f = (List.range l.length).flatMap fun i => (l[i]?.map fun x => f (x, i)).getD [] := by
  rw [List.range_eq_range', ← List.zipIdx_map_snd 0 l, List.flatMap_map]
  refine List.flatMap_congr fun (x, i) hx => ?_
  rw [List.mk_mem_zipIdx_iff_getElem?.1 hx]
  rfl

namespace Automaton

/-- `t` is an edge of the automaton. -/
def HasEdge : Automaton → Transition → Prop
  | nondeterministic nfa, t => nfa.Edge t.source t.label t.target
  | deterministic dfa, t => ∃ c, t.label = .symbol c ∧ dfa.Edge t.source c t.target

theorem mem_transitions_iff : t ∈ a.transitions ↔ a.HasEdge t := by
  cases a with
  | nondeterministic nfa => exact Nfa.mem_transitions
  | deterministic dfa => exact Dfa.mem_transitions

/-- The edges that leave a state, in order. -/
def edgesOf : Automaton → StateId → List Transition
  | nondeterministic nfa, id => (nfa.states[id]?.map (·.transitions id)).getD []
  | deterministic dfa, id =>
    (dfa.states[id]?.map fun s => s.edges.toList.map fun (c, target) => ⟨id, .symbol c, target⟩).getD []

theorem transitions_eq_flatMap (a : Automaton) : a.transitions = a.states.flatMap a.edgesOf := by
  cases a with
  | nondeterministic nfa =>
    show nfa.transitions = _
    unfold Nfa.transitions
    rw [flatMap_zipIdx, Array.length_toList]
    simp only [Array.getElem?_toList]
    rfl
  | deterministic dfa =>
    show dfa.transitions = _
    unfold Dfa.transitions
    rw [flatMap_zipIdx, Array.length_toList]
    simp only [Array.getElem?_toList]
    rfl

theorem source_eq_of_mem_edgesOf (h : t ∈ a.edgesOf id) : t.source = id := by
  cases a with
  | nondeterministic nfa =>
    rw [edgesOf] at h
    cases hs : nfa.states[id]? with
    | none => simp [hs] at h
    | some s =>
      rw [hs] at h
      exact (NfaState.mem_transitions.1 h).1
  | deterministic dfa =>
    rw [edgesOf] at h
    cases hs : dfa.states[id]? with
    | none => simp [hs] at h
    | some s =>
      rw [hs] at h
      obtain ⟨_, _, rfl⟩ := List.mem_map.1 h
      rfl

theorem edgesOf_eq_nil (h : a.size ≤ id) : a.edgesOf id = [] := by
  cases a with
  | nondeterministic nfa =>
    have hnone : nfa.states[id]? = none := Array.getElem?_eq_none h
    rw [edgesOf, hnone]
    rfl
  | deterministic dfa =>
    have hnone : dfa.states[id]? = none := Array.getElem?_eq_none h
    rw [edgesOf, hnone]
    rfl

theorem edgesOf_ascending (a : Automaton) (id : StateId) : (a.edgesOf id).Pairwise Before := by
  cases a with
  | nondeterministic nfa =>
    rw [edgesOf]
    cases nfa.states[id]? with
    | none => exact .nil
    | some s => exact s.transitions_ascending id
  | deterministic dfa =>
    rw [edgesOf]
    cases dfa.states[id]? with
    | none => exact .nil
    | some s => exact s.edges_ascending id

/-- **Order.** The transitions ascend strictly. -/
theorem transitions_ascending (a : Automaton) : a.transitions.Pairwise Before := by
  rw [a.transitions_eq_flatMap]
  refine List.pairwise_flatMap.2 ⟨fun id _ => a.edgesOf_ascending id, ?_⟩
  refine List.pairwise_lt_range.imp fun {p q} hpq => ?_
  intro t ht u hu
  refine before_of_source ?_
  rwa [source_eq_of_mem_edgesOf ht, source_eq_of_mem_edgesOf hu]

theorem mem_edgesOf_iff : t ∈ a.edgesOf id ↔ t.source = id ∧ a.HasEdge t := by
  rw [← mem_transitions_iff, transitions_eq_flatMap, List.mem_flatMap]
  constructor
  · intro h
    have hid : id < a.size := Nat.lt_of_not_le fun hle => by simp [edgesOf_eq_nil hle] at h
    exact ⟨source_eq_of_mem_edgesOf h, id, List.mem_range.2 hid, h⟩
  · rintro ⟨rfl, id, _, h⟩
    rwa [source_eq_of_mem_edgesOf h]

end Automaton

/-! ## Side by side -/

namespace DumpStyle

variable {style : DumpStyle}

/-- **In step.** Where each state's edges are next to each other, in the order of the states, every state
comes by its own edges, and none is left over. -/
theorem lines_flatMap {ids : List StateId} {edges : StateId → List Transition} (hids : ids.Nodup)
    (hedges : ∀ id, ∀ t ∈ edges id, t.source = id) :
    style.lines a ids (ids.flatMap edges) = ids.mapM fun id => style.line a id (edges id) := by
  induction ids with
  | nil => rfl
  | cons id ids ih =>
    obtain ⟨hid, hids⟩ := List.nodup_cons.1 hids
    have hown : ∀ t ∈ edges id, decide (t.source = id) = true :=
      fun t ht => decide_eq_true (hedges id t ht)
    have hother : ∀ t ∈ ids.flatMap edges, decide (t.source = id) = false := by
      intro t ht
      obtain ⟨other, hother, ht⟩ := List.mem_flatMap.1 ht
      refine decide_eq_false fun hsource => hid ?_
      rwa [← hsource, hedges other t ht]
    have htake : (ids.flatMap edges).takeWhile (·.source = id) = [] := by
      cases hrest : ids.flatMap edges with
      | nil => rfl
      | cons t rest => exact List.takeWhile_cons_of_neg (by simp [hother t (by simp [hrest])])
    have hdrop : (ids.flatMap edges).dropWhile (·.source = id) = ids.flatMap edges := by
      cases hrest : ids.flatMap edges with
      | nil => rfl
      | cons t rest => exact List.dropWhile_cons_of_neg (by simp [hother t (by simp [hrest])])
    rw [List.flatMap_cons, lines, List.takeWhile_append_of_pos hown, List.dropWhile_append_of_pos hown,
      htake, hdrop, List.append_nil, ih hids, List.mapM_cons]

/-- The set that the line of a state shows, if it shows one. -/
def shownSubset? (style : DumpStyle) (a : Automaton) (id : StateId) : Checked (Option StateSet) :=
  if style.showsSubsets then a.subset? id else .ok none

/-- The line of a state, without its end. -/
def lineText (style : DumpStyle) (a : Automaton) (id : StateId) (subset? : Option StateSet)
    (edges : List Transition) : String :=
  style.stateName id ++ style.subset subset? ++ style.markers (id = a.start) (a.isAccept id) ++ ": " ++
    style.edges edges

theorem exists_of_line_eq_ok {edges : List Transition} {text : String}
    (h : style.line a id edges = .ok text) :
    ∃ subset?, style.shownSubset? a id = .ok subset? ∧
      text = style.lineText a id subset? edges ++ "\n" := by
  unfold line at h
  unfold shownSubset?
  split at h
  case isTrue hshows =>
    rw [if_pos hshows]
    obtain ⟨subset?, hsubset, h⟩ := exists_of_bind_eq_ok h
    exact ⟨subset?, hsubset, (Except.ok.inj h).symm⟩
  case isFalse hshows =>
    rw [if_neg hshows]
    exact ⟨none, rfl, (Except.ok.inj h).symm⟩

/-- `lines` are the lines of states, each with all edges of its state. -/
def AreLines (style : DumpStyle) (a : Automaton) (ids : List StateId) (lines : List String) : Prop :=
  List.Forall₂ (fun id line => ∃ subset?, style.shownSubset? a id = .ok subset? ∧
    line = style.lineText a id subset? (a.edgesOf id)) ids lines

/-- A listing consists of the lines of the states, each with all edges of its state. -/
theorem exists_lines {text : String} (h : a.dump style = .ok text) :
    ∃ lines, style.AreLines a a.states lines ∧ text = String.join (lines.map (· ++ "\n")) := by
  have hends : ∀ {ids texts},
      List.Forall₂ (fun id text => style.line a id (a.edgesOf id) = .ok text) ids texts →
      ∃ lines, style.AreLines a ids lines ∧ texts = lines.map (· ++ "\n") := by
    intro ids texts h
    induction h with
    | nil => exact ⟨[], .nil, rfl⟩
    | cons hline _ ih =>
      obtain ⟨lines, hlines, rfl⟩ := ih
      obtain ⟨subset?, hsubset, rfl⟩ := exists_of_line_eq_ok hline
      exact ⟨_ :: lines, .cons ⟨subset?, hsubset, rfl⟩ hlines, rfl⟩
  have hstep : style.lines a a.states (a.states.flatMap a.edgesOf) =
      a.states.mapM fun id => style.line a id (a.edgesOf id) :=
    lines_flatMap List.nodup_range fun _ _ => Automaton.source_eq_of_mem_edgesOf
  obtain ⟨texts, htexts, h⟩ := exists_of_bind_eq_ok h
  rw [a.transitions_eq_flatMap, hstep, mapM_eq_ok_iff] at htexts
  obtain ⟨lines, hlines, rfl⟩ := hends htexts
  exact ⟨lines, hlines, (Except.ok.inj h).symm⟩

/-! ## One line each -/

/-- No colour of the palette breaks the line. -/
def IsInline (style : DumpStyle) : Prop :=
  ∀ sign ∈ [style.palette.blue, style.palette.green, style.palette.dim, style.palette.reset],
    '\n' ∉ sign.toList

theorem isInline_ofChoice (colored showsSubsets : Bool) :
    IsInline {palette := .ofChoice colored, showsSubsets} := by
  have key : ∀ colored, ∀ sign ∈ [(Palette.ofChoice colored).blue, (Palette.ofChoice colored).green,
      (Palette.ofChoice colored).dim, (Palette.ofChoice colored).reset], '\n' ∉ sign.toList := by decide
  exact key colored

theorem not_mem_intercalate {c : Char} {separator : String} {texts : List String}
    (hseparator : c ∉ separator.toList) (htexts : ∀ text ∈ texts, c ∉ text.toList) :
    c ∉ (separator.intercalate texts).toList := by
  induction texts with
  | nil => simp
  | cons text texts ih =>
    obtain ⟨htext, htexts⟩ := List.forall_mem_cons.1 htexts
    cases texts with
    | nil => simpa using htext
    | cons next rest =>
      rw [String.intercalate_cons_cons]
      simp only [String.toList_append, List.mem_append, not_or]
      exact ⟨⟨htext, hseparator⟩, ih htexts⟩

theorem not_mem_members {c : Char} (hc : c.isDigit = false) (hcomma : c ∉ (",").toList) (s : StateSet) :
    c ∉ (",".intercalate (s.toList.map Nat.repr)).toList := by
  refine not_mem_intercalate hcomma fun text htext => ?_
  obtain ⟨id, _, rfl⟩ := List.mem_map.1 htext
  exact not_mem_repr hc id

section

variable (h : style.IsInline)

include h

theorem newline_not_mem_stateName (id : StateId) : '\n' ∉ (style.stateName id).toList := by
  unfold stateName
  simp only [String.toList_append, List.mem_append, not_or]
  exact ⟨⟨⟨h _ (by simp), by decide⟩, not_mem_repr (by decide) id⟩, h _ (by simp)⟩

theorem newline_not_mem_dimmed {text : String} (htext : '\n' ∉ text.toList) :
    '\n' ∉ (style.dimmed text).toList := by
  unfold dimmed
  simp only [String.toList_append, List.mem_append, not_or]
  exact ⟨⟨h _ (by simp), htext⟩, h _ (by simp)⟩

theorem newline_not_mem_subset (subset? : Option StateSet) : '\n' ∉ (style.subset subset?).toList := by
  cases subset? with
  | none => simp [subset]
  | some s =>
    have htext : '\n' ∉ s.text.toList := by
      unfold StateSet.text StateSet.listed
      simp only [String.toList_append, List.mem_append, not_or]
      exact ⟨⟨by decide, not_mem_members (by decide) (by decide) s⟩, by decide⟩
    unfold subset
    simp only [String.toList_append, List.mem_append, not_or]
    exact ⟨by decide, newline_not_mem_dimmed h htext⟩

theorem newline_not_mem_markers (isStart isAccept : Bool) :
    '\n' ∉ (style.markers isStart isAccept).toList := by
  have hmark : ∀ text : String, '\n' ∉ text.toList →
      '\n' ∉ (" " ++ style.palette.green ++ text ++ style.palette.reset).toList := by
    intro text htext
    simp only [String.toList_append, List.mem_append, not_or]
    exact ⟨⟨⟨by decide, h _ (by simp)⟩, htext⟩, h _ (by simp)⟩
  cases isStart <;> cases isAccept
  case false.false => simp [markers]
  all_goals exact hmark _ (by decide)

theorem newline_not_mem_edge (t : Transition) : '\n' ∉ (style.edge t).toList := by
  have hlabel : '\n' ∉ t.label.text.toList := by
    cases t.label with
    | symbol c => exact Quoted.newline_not_mem_character c
    | epsilon => decide
  unfold edge
  simp only [String.toList_append, List.mem_append, not_or]
  refine ⟨⟨⟨⟨?_, by decide⟩, newline_not_mem_dimmed h (by decide)⟩, by decide⟩,
    newline_not_mem_stateName h t.target⟩
  split
  · exact newline_not_mem_dimmed h hlabel
  · exact hlabel

theorem newline_not_mem_edges (edges : List Transition) : '\n' ∉ (style.edges edges).toList := by
  unfold DumpStyle.edges
  split
  · exact newline_not_mem_dimmed h (by decide)
  · refine not_mem_intercalate (by decide) fun text htext => ?_
    obtain ⟨t, _, rfl⟩ := List.mem_map.1 htext
    exact newline_not_mem_edge h t

theorem newline_not_mem_lineText (subset? : Option StateSet) (edges : List Transition) :
    '\n' ∉ (style.lineText a id subset? edges).toList := by
  unfold lineText
  simp only [String.toList_append, List.mem_append, not_or]
  exact ⟨⟨⟨⟨newline_not_mem_stateName h id, newline_not_mem_subset h subset?⟩,
    newline_not_mem_markers h _ _⟩, by decide⟩, newline_not_mem_edges h edges⟩

end

/-! ## States without edges -/

/-- An edge takes more room than the sign for no edges, whatever symbol it reads. -/
theorem length_dimmed_lt_edge (t : Transition) :
    (style.dimmed "∅").length < (style.edge t).length := by
  unfold edge dimmed stateName
  simp only [String.length_append]
  have hsign : "∅".length = "→".length := by decide
  have hblank : " ".length = 1 := by decide
  omega

/-- `∅` stands for no edges only. -/
theorem edges_eq_dimmed_iff {edges : List Transition} :
    style.edges edges = style.dimmed "∅" ↔ edges = [] := by
  constructor
  · intro h
    cases edges with
    | nil => rfl
    | cons t rest =>
      have hlength : (style.edge t).length ≤ (style.edges (t :: rest)).length := by
        unfold DumpStyle.edges
        rw [List.map_cons, if_neg (by simp)]
        cases rest with
        | nil => simp
        | cons u rest =>
          rw [List.map_cons, String.intercalate_cons_cons]
          simp only [String.length_append]
          omega
      rw [h] at hlength
      exact absurd (style.length_dimmed_lt_edge t) (Nat.not_lt.2 hlength)
  · rintro rfl
    rfl

theorem edges_of_ne_nil {edges : List Transition} (h : edges ≠ []) :
    style.edges edges = ", ".intercalate (edges.map style.edge) := by
  unfold DumpStyle.edges
  exact if_neg (by simpa using h)

/-- The line lists a state with these edges, and they are all that leave it. -/
structure Lists (style : DumpStyle) (a : Automaton) (id : StateId) (edges : List Transition)
    (line : String) : Prop where
  one_line : '\n' ∉ line.toList
  mem_iff : ∀ t, t ∈ edges ↔ t.source = id ∧ a.HasEdge t
  nodup : edges.Nodup
  text : ∃ subset? shown, style.shownSubset? a id = .ok subset? ∧
    line = style.stateName id ++ style.subset subset? ++
      style.markers (id = a.start) (a.isAccept id) ++ ": " ++ shown ∧
    (shown = style.dimmed "∅" ↔ edges = []) ∧
    (edges ≠ [] → shown = ", ".intercalate (edges.map style.edge))

end DumpStyle

theorem Transition.Before.ne (h : t.Before u) : t ≠ u := by
  rintro rfl
  rcases Transition.before_iff.1 h with h | ⟨_, h | ⟨_, h⟩⟩
  · exact Nat.lt_irrefl _ h
  · rw [Label.compare_self] at h
    cases h
  · exact Nat.lt_irrefl _ h

/-- **Complete listings.** The transitions ascend strictly and are the edges. A listing has a line for
each state, in order, which lists the state with all its edges; and line after line, the edges are the
transitions in their order. -/
theorem Automaton.dump_complete (a : Automaton) (colored showsSubsets : Bool) :
    a.transitions.Pairwise Transition.Before ∧ (∀ t, t ∈ a.transitions ↔ a.HasEdge t) ∧
      ∃ (lines : List String) (edges : StateId → List Transition),
        a.dump {palette := .ofChoice colored, showsSubsets} =
          .ok (String.join (lines.map (· ++ "\n"))) ∧
        List.Forall₂ (fun id line => DumpStyle.Lists {palette := .ofChoice colored, showsSubsets} a id
          (edges id) line) a.states lines ∧
        a.states.flatMap edges = a.transitions := by
  refine ⟨a.transitions_ascending, fun t => mem_transitions_iff, ?_⟩
  have hinline := DumpStyle.isInline_ofChoice colored showsSubsets
  obtain ⟨text, htext⟩ := a.dump_returns {palette := .ofChoice colored, showsSubsets}
  obtain ⟨lines, hlines, rfl⟩ := DumpStyle.exists_lines htext
  refine ⟨lines, a.edgesOf, htext, hlines.imp ?_, a.transitions_eq_flatMap.symm⟩
  rintro id _ ⟨subset?, hsubset, rfl⟩
  exact {
    one_line := DumpStyle.newline_not_mem_lineText hinline subset? _
    mem_iff := fun t => mem_edgesOf_iff
    nodup := (a.edgesOf_ascending id).imp Transition.Before.ne
    text := ⟨subset?, _, hsubset, rfl, DumpStyle.edges_eq_dimmed_iff, DumpStyle.edges_of_ne_nil⟩
  }

end FiniteAutomata
