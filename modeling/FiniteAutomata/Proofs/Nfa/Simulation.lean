import FiniteAutomata.Proofs.Nfa.Closure
import FiniteAutomata.Proofs.Transitions
import Mathlib.Computability.EpsilonNFA
/-!
# Simulation decides whether there is a path

The paths of an automaton are those of Mathlib's automata with edges that read nothing
(`path_iff_exists_isPath`), so both accept the same words (`acceptsByPath_iff_mem_accepts`). Simulation
answers whether there is an accepting path, keeps the set of all states that paths lead to, and gives
the same answer whether or not it stops where that set is empty.

Main statement: `accepts_iff_path`.
-/

namespace FiniteAutomata.Nfa

variable {nfa : Nfa} {p q : Nat} {w : List Char}

/-! ## Paths by their labels -/

/-- The label of an edge that reads a symbol, or nothing. -/
def labelOf : Option Char → Label
  | some c => .symbol c
  | none => .epsilon

/-- The automaton as one of Mathlib's. -/
def toEpsilonNfa (nfa : Nfa) : εNFA Char Nat where
  step p l := {q | nfa.Edge p (labelOf l) q}
  start := {nfa.start}
  accept := {q | q ∈ nfa.accept}

theorem mem_step_toEpsilonNfa {l : Option Char} :
    q ∈ nfa.toEpsilonNfa.step p l ↔ nfa.Edge p (labelOf l) q := Iff.rfl

/-- A path spells a word if the labels on its edges, those that read nothing left out, are the word. -/
theorem path_iff_exists_isPath :
    Path nfa.Edge p w q ↔ ∃ labels, labels.reduceOption = w ∧ nfa.toEpsilonNfa.IsPath p q labels := by
  constructor
  · intro h
    induction h with
    | refl p => exact ⟨[], rfl, .nil p⟩
    | epsilon first _ ih =>
      obtain ⟨labels, rfl, hlabels⟩ := ih
      exact ⟨none :: labels, List.reduceOption_cons_of_none labels, .cons _ _ _ _ _ first hlabels⟩
    | @symbol _ _ _ c _ first _ ih =>
      obtain ⟨labels, rfl, hlabels⟩ := ih
      exact ⟨some c :: labels, List.reduceOption_cons_of_some c labels, .cons _ _ _ _ _ first hlabels⟩
  · rintro ⟨labels, rfl, h⟩
    induction h with
    | nil p => exact .refl p
    | cons t s u l labels first _ ih =>
      cases l with
      | none =>
        rw [List.reduceOption_cons_of_none]
        exact .epsilon (mem_step_toEpsilonNfa.1 first) ih
      | some c =>
        rw [List.reduceOption_cons_of_some]
        exact .symbol (mem_step_toEpsilonNfa.1 first) ih

theorem acceptsByPath_iff_mem_accepts : nfa.AcceptsByPath w ↔ w ∈ nfa.toEpsilonNfa.accepts := by
  rw [εNFA.mem_accepts_iff_exists_path]
  constructor
  · rintro ⟨q, hq, hpath⟩
    obtain ⟨labels, hlabels, hisPath⟩ := path_iff_exists_isPath.1 hpath
    exact ⟨nfa.start, q, labels, rfl, hq, hlabels, hisPath⟩
  · rintro ⟨_, q, labels, rfl, hq, hlabels, hisPath⟩
    exact ⟨q, hq, path_iff_exists_isPath.2 ⟨labels, hlabels, hisPath⟩⟩

/-! ## Simulation -/

/-- **Simulation and paths.** In an automaton whose start and targets are states, every word gets a
verdict: it is accepted exactly if a path from the start to an accepting state spells it, with any edges
that read nothing in between. The set that is kept along the word holds exactly the states that paths lead
to, and the verdict is whether it meets the accepting states at the end. Where the set is empty before
the end, the word is rejected and no path goes on, so to stop there loses nothing. -/
theorem accepts_iff_path (h : nfa.WellFormed) (w : List Char) :
    (∃ b, nfa.accepts w = .ok b ∧ (b = true ↔ nfa.AcceptsByPath w) ∧
      (b = true ↔ w ∈ nfa.toEpsilonNfa.accepts)) ∧
    (∃ live, nfa.liveAfter w = .ok live ∧ (∀ q, q ∈ live ↔ Path nfa.Edge nfa.start w q) ∧
      nfa.accepts w = .ok (live.intersects nfa.accept)) ∧
    ∀ v u live, w = v ++ u → nfa.liveAfter v = .ok live → live.isEmpty = true →
      nfa.accepts w = .ok false ∧ ∀ q, ¬ Path nfa.Edge nfa.start w q := by
  obtain ⟨b, hb, hiff⟩ := accepts_returns h w
  obtain ⟨live, hlive, hisLive⟩ := liveAfter_returns h w
  refine ⟨⟨b, hb, hiff, hiff.trans acceptsByPath_iff_mem_accepts⟩, ⟨live, hlive, hisLive, ?_⟩, ?_⟩
  · rw [hb, Bool.eq_iff_iff.2 (hiff.trans hisLive.intersects_iff.symm)]
  · rintro v u empty rfl hempty hnone
    have hnopath := ((liveAfter_returns h v).of_eq_ok hempty).not_path_append hnone u
    refine ⟨?_, hnopath⟩
    have hfalse : b = false := by
      rw [Bool.eq_false_iff, ne_eq, hiff]
      rintro ⟨q, _, hpath⟩
      exact hnopath q hpath
    rw [hb, hfalse]

/-- Two states joined both ways by edges that read nothing, and a third one between an `a` and the
way back. -/
def circling : Nfa where
  states := #[⟨.empty, .singleton 1⟩, ⟨.ofList [('a', .singleton 2)], .singleton 0⟩, ⟨.empty, .singleton 0⟩]
  start := 0
  accept := .singleton 1

/-- The way around is taken as often as need be, and after a `b` no state is left. -/
theorem accepts_iff_path_circling :
    circling.WellFormed ∧ circling.accepts ['a', 'a'] = .ok true ∧
      circling.accepts ['a', 'b', 'a'] = .ok false ∧
      ∀ q, ¬ Path circling.Edge circling.start ['a', 'b', 'a'] q := by
  have h : circling.WellFormed := by decide
  have hround : ∀ {q w}, Path circling.Edge 2 w q → Path circling.Edge 0 ('a' :: w) q := by
    intro q w hpath
    have hin : circling.Edge 0 .epsilon 1 := ⟨_, rfl, List.mem_singleton_self 1⟩
    have hread : circling.Edge 1 (.symbol 'a') 2 := ⟨_, rfl, _, rfl, List.mem_singleton_self 2⟩
    exact .epsilon hin (.symbol hread hpath)
  have hback : circling.Edge 2 .epsilon 0 := ⟨_, rfl, List.mem_singleton_self 0⟩
  have hin : circling.Edge 0 .epsilon 1 := ⟨_, rfl, List.mem_singleton_self 1⟩
  have haccepted : circling.AcceptsByPath ['a', 'a'] :=
    ⟨1, List.mem_singleton_self 1,
      hround (.epsilon hback (hround (.epsilon hback (.epsilon hin (.refl 1)))))⟩
  obtain ⟨⟨b, hb, hiff, _⟩, _, _⟩ := accepts_iff_path h ['a', 'a']
  -- no edge reads a `b`, so no path goes on behind the first `a`
  have hedge : ∀ t ∈ circling.transitions, t.label ≠ .symbol 'b' := by decide
  obtain ⟨_, ⟨live, hlive, hisLive, _⟩, _⟩ := accepts_iff_path h ['a', 'b']
  have hempty : live.isEmpty = true := by
    rw [Ordered.isEmpty_iff]
    intro q hq
    obtain ⟨_, _, hb⟩ := Path.exists_of_append (v := ['a']) ((hisLive q).1 hq)
    obtain ⟨p, p', _, he, _⟩ := hb.exists_edge_of_singleton
    exact hedge ⟨p, .symbol 'b', p'⟩ (mem_transitions.2 he) rfl
  obtain ⟨_, _, hstop⟩ := accepts_iff_path h ['a', 'b', 'a']
  obtain ⟨hrejected, hnopath⟩ := hstop ['a', 'b'] ['a'] live rfl hlive hempty
  exact ⟨h, by rw [hb, hiff.2 haccepted], hrejected, hnopath⟩

end FiniteAutomata.Nfa
