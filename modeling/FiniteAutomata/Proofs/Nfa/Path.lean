import FiniteAutomata.Nfa.Path
import FiniteAutomata.Proofs.Language
/-!
# Paths inside a part of an automaton

A set of states that no edge leaves holds every path that begins in it (`Path.mem_of_mem`). `link`
adds edges that read nothing, and the paths of the new automaton are told by those of the old one:
this is how the language of an automaton with loops is read off its edges.
-/

namespace FiniteAutomata

/-- The ends of labelled edges. -/
abbrev EdgeRelation := Nat → Label → Nat → Prop

namespace Path

variable {edge edge' : EdgeRelation} {S : Set Nat} {p q r : Nat} {w : List Char}

theorem snoc {l : Label} (h : Path edge p w q) (last : edge q l r) : Path edge p (w ++ l.word) r := by
  have step : Path edge q (l.word ++ []) r := .cons last (.refl r)
  rw [List.append_nil] at step
  exact h.trans step

theorem mono (hsub : ∀ p l q, edge p l q → edge' p l q) (h : Path edge p w q) : Path edge' p w q := by
  induction h with
  | refl => exact .refl _
  | epsilon first _ ih => exact .epsilon (hsub _ _ _ first) ih
  | symbol first _ ih => exact .symbol (hsub _ _ _ first) ih

theorem mem_of_mem (hS : ∀ p ∈ S, ∀ l q, edge p l q → q ∈ S) (hp : p ∈ S) (h : Path edge p w q) :
    q ∈ S := by
  induction h with
  | refl => exact hp
  | epsilon first _ ih => exact ih (hS _ hp _ _ first)
  | symbol first _ ih => exact ih (hS _ hp _ _ first)

/-- Inside a set that no edge leaves, only the edges inside matter. -/
theorem mono_on (hS : ∀ p ∈ S, ∀ l q, edge p l q → q ∈ S)
    (hsub : ∀ p ∈ S, ∀ l q, edge p l q → edge' p l q) (hp : p ∈ S) (h : Path edge p w q) :
    Path edge' p w q := by
  induction h with
  | refl => exact .refl _
  | epsilon first _ ih => exact .epsilon (hsub _ hp _ _ first) (ih (hS _ hp _ _ first))
  | symbol first _ ih => exact .symbol (hsub _ hp _ _ first) (ih (hS _ hp _ _ first))

theorem eq_of_final (hp : ∀ l q, ¬ edge p l q) (h : Path edge p w q) : q = p ∧ w = [] := by
  cases h with
  | refl => exact ⟨rfl, rfl⟩
  | epsilon first => exact absurd first (hp _ _)
  | symbol first => exact absurd first (hp _ _)

/-- A path along the letters of `v ++ w` passes a state between them. -/
theorem exists_of_append {v : List Char} (h : Path edge p (v ++ w) r) :
    ∃ q, Path edge p v q ∧ Path edge q w r := by
  generalize hvw : v ++ w = word at h
  induction h generalizing v with
  | refl p =>
    obtain ⟨rfl, rfl⟩ := List.append_eq_nil_iff.1 hvw
    exact ⟨p, .refl p, .refl p⟩
  | epsilon first _ ih =>
    obtain ⟨q, hv, hw⟩ := ih hvw
    exact ⟨q, .epsilon first hv, hw⟩
  | @symbol p _ _ c u first rest ih =>
    cases v with
    | nil =>
      rw [List.nil_append] at hvw
      rw [hvw]
      exact ⟨p, .refl p, .symbol first rest⟩
    | cons d v =>
      obtain ⟨rfl, hrest⟩ := List.cons.inj hvw
      obtain ⟨q, hv, hw⟩ := ih hrest
      exact ⟨q, .symbol first hv, hw⟩

/-- A path that spells one symbol crosses an edge with it, and nothing is read before and after. -/
theorem exists_edge_of_singleton {c : Char} (h : Path edge p [c] r) :
    ∃ q q', Path edge p [] q ∧ edge q (.symbol c) q' ∧ Path edge q' [] r := by
  generalize hw : [c] = word at h
  induction h with
  | refl => cases hw
  | epsilon first _ ih =>
    obtain ⟨q, q', hq, hedge, hr⟩ := ih hw
    exact ⟨q, q', .epsilon first hq, hedge, hr⟩
  | symbol first rest =>
    obtain ⟨rfl, rfl⟩ := List.cons.inj hw
    exact ⟨_, _, .refl _, first, rest⟩

end Path

/-! ## More edges that read nothing

A part of the states that the old edges do not leave is left by the new ones alone. If these begin
in one state, the exit, a path out of the part splits there (`Path.link_exit_iff`); if one of them
leads back into the part, it splits at each return (`Path.link_loop_iff`). -/

/-- The edges with the pairs of `new` joined by edges that read nothing. -/
def link (edge : EdgeRelation) (new : List (Nat × Nat)) : EdgeRelation :=
  fun p l q => edge p l q ∨ (l = .epsilon ∧ (p, q) ∈ new)

section Link

variable {edge : EdgeRelation} {new : List (Nat × Nat)} {p q r : Nat} {w : List Char}

theorem link_link (edge : EdgeRelation) (new more : List (Nat × Nat)) :
    link (link edge new) more = link edge (new ++ more) := by
  funext p l q
  simp only [link, List.mem_append, and_or_left, or_assoc]

theorem Path.of_link_mem (h : (p, q) ∈ new) : Path (link edge new) p [] q :=
  .epsilon (Or.inr ⟨rfl, h⟩) (.refl q)

theorem Path.to_link (h : Path edge p w q) (new : List (Nat × Nat)) :
    Path (link edge new) p w q :=
  h.mono fun _ _ _ => Or.inl

theorem link_iff_of_forall_ne {l : Label} (h : ∀ q, (p, q) ∉ new) :
    link edge new p l q ↔ edge p l q :=
  or_iff_left fun hnew => h q hnew.2

theorem Path.link_fresh_iff (hp : ∀ l q, ¬ edge p l q) (hne : p ≠ r) :
    Path (link edge new) p w r ↔ ∃ q, (p, q) ∈ new ∧ Path (link edge new) q w r := by
  constructor
  · intro h
    cases h with
    | refl => exact absurd rfl hne
    | epsilon first rest =>
      rcases first with first | ⟨_, hmem⟩
      · exact absurd first (hp _ _)
      · exact ⟨_, hmem, rest⟩
    | symbol first =>
      rcases first with first | ⟨hl, _⟩
      · exact absurd first (hp _ _)
      · cases hl
  · rintro ⟨q, hmem, h⟩
    exact .epsilon (Or.inr ⟨rfl, hmem⟩) h

variable {S : Set Nat} {s t e : Nat}

/-- What a step from inside the part may be. -/
theorem link_cases {P : Prop} {l : Label} (hS : ∀ p ∈ S, ∀ l q, edge p l q → q ∈ S) (hp : p ∈ S)
    (h : link edge new p l q) (old : edge p l q → q ∈ S → P)
    (fresh : l = .epsilon → (p, q) ∈ new → P) : P := by
  rcases h with h | ⟨hl, hmem⟩
  · exact old h (hS p hp l q h)
  · exact fresh hl hmem

theorem Path.link_exit_iff (hS : ∀ p ∈ S, ∀ l q, edge p l q → q ∈ S)
    (hfrom : ∀ p ∈ S, ∀ q, (p, q) ∈ new → p = e ∧ q = t) (ht : (e, t) ∈ new) (hp : p ∈ S)
    (hr : r ∉ S) :
    Path (link edge new) p w r ↔
      ∃ u, Path edge p u e ∧ ∃ v, Path (link edge new) t v r ∧ u ++ v = w := by
  constructor
  · intro h
    induction h with
    | refl => exact absurd hp hr
    | epsilon first rest ih =>
      refine link_cases hS hp first (fun first hq => ?_) fun _ hmem => ?_
      · obtain ⟨u, hu, v, hv, rfl⟩ := ih hq hr
        exact ⟨u, .epsilon first hu, v, hv, rfl⟩
      · obtain ⟨rfl, rfl⟩ := hfrom _ hp _ hmem
        exact ⟨[], .refl _, _, rest, rfl⟩
    | symbol first rest ih =>
      refine link_cases hS hp first (fun first hq => ?_) fun hl _ => nomatch hl
      obtain ⟨u, hu, v, hv, rfl⟩ := ih hq hr
      exact ⟨_, .symbol first hu, v, hv, rfl⟩
  · rintro ⟨u, hu, v, hv, rfl⟩
    exact (hu.to_link new).trans (.epsilon (Or.inr ⟨rfl, ht⟩) hv)

open scoped Computability in
/-- With a way back to `s`, a path out of the part goes from `s` to the exit any number of times
before it leaves. -/
theorem Path.link_loop_iff (hS : ∀ p ∈ S, ∀ l q, edge p l q → q ∈ S)
    (hfrom : ∀ p ∈ S, ∀ q, (p, q) ∈ new → p = e ∧ (q = s ∨ q = t)) (hback : (e, s) ∈ new)
    (ht : (e, t) ∈ new) (hs : s ∈ S) {L : Language Char} (hL : ∀ u, Path edge s u e ↔ u ∈ L)
    (hp : p ∈ S) (hr : r ∉ S) :
    Path (link edge new) p w r ↔
      ∃ u, Path edge p u e ∧ ∃ v ∈ L∗, ∃ x, Path (link edge new) t x r ∧ u ++ (v ++ x) = w := by
  constructor
  · intro h
    induction h with
    | refl => exact absurd hp hr
    | epsilon first rest ih =>
      refine link_cases hS hp first (fun first hq => ?_) fun _ hmem => ?_
      · obtain ⟨u, hu, v, hv, x, hx, rfl⟩ := ih hq hr
        exact ⟨u, .epsilon first hu, v, hv, x, hx, rfl⟩
      · obtain ⟨rfl, rfl | rfl⟩ := hfrom _ hp _ hmem
        · obtain ⟨u, hu, v, hv, x, hx, rfl⟩ := ih hs hr
          exact ⟨[], .refl _, u ++ v, append_mem_kstar ((hL u).1 hu) hv, x, hx, by simp⟩
        · exact ⟨[], .refl _, [], Language.nil_mem_kstar L, _, rest, rfl⟩
    | symbol first rest ih =>
      refine link_cases hS hp first (fun first hq => ?_) fun hl _ => nomatch hl
      obtain ⟨u, hu, v, hv, x, hx, rfl⟩ := ih hq hr
      exact ⟨_, .symbol first hu, v, hv, x, hx, rfl⟩
  · rintro ⟨u, hu, v, hv, x, hx, rfl⟩
    refine (hu.to_link new).trans ?_
    refine kstar_induction (P := fun v => Path (link edge new) e (v ++ x) r) ?_ ?_ hv
    · exact .epsilon (Or.inr ⟨rfl, ht⟩) hx
    · intro v hv y ih
      rw [List.append_assoc]
      exact .epsilon (Or.inr ⟨rfl, hback⟩) ((((hL v).2 hv).to_link new).trans ih)

end Link

/-! ## Automata -/

namespace Nfa

variable {nfa : Nfa} {p q : Nat} {l : Label} {c : Char}

theorem lt_size_of_edge (h : nfa.Edge p l q) : p < nfa.size := by
  obtain ⟨s, hs, _⟩ := h
  exact (Array.getElem?_eq_some_iff.1 hs).1

theorem mem_alphabet_iff :
    c ∈ nfa.alphabet ↔ ∃ s ∈ nfa.states, ∃ targets, s.targets? c = some targets := by
  unfold alphabet NfaState.targets?
  simp only [Alphabet.mem_ofList, List.mem_flatMap, Ordered.mem_toList, SymbolMap.mem_symbols,
    SymbolMap.get?_eq_some_iff]
  simp

theorem mem_alphabet_of_edge (h : nfa.Edge p (.symbol c) q) : c ∈ nfa.alphabet := by
  obtain ⟨s, hs, targets, htargets, _⟩ := h
  exact mem_alphabet_iff.2 ⟨s, Array.mem_of_getElem? hs, targets, htargets⟩

/-- Every state is on a path from the start to an accepting state, and every symbol on an edge. -/
structure Trim (nfa : Nfa) : Prop where
  wellFormed : nfa.WellFormed
  reach : ∀ p < nfa.size, ∃ w, Path nfa.Edge nfa.start w p
  coreach : ∀ p < nfa.size, ∃ w, ∃ q ∈ nfa.accept, Path nfa.Edge p w q
  used : ∀ c ∈ nfa.alphabet, ∃ p q, nfa.Edge p (.symbol c) q

end Nfa

end FiniteAutomata
