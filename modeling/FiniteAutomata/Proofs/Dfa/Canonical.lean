import Mathlib.Data.Char
import Mathlib.Data.List.Shortlex
import FiniteAutomata.Proofs.Dfa.Shape
/-!
# Numbers of states as ranks of words

In an automaton that is `Ranked`, states are numbered in the order in which words lead to them:
shorter words first, words of one length in lexicographic order. If it also has no two states that
accept the same words (`Reduced`), and none that no accepted word passes (`Trim`), then its numbers
depend on its language alone: `Canonical.sameShape` says that two such automata with the same
language have the same shape.
-/

namespace FiniteAutomata

/-- Shorter words come first, then those that are less at the first difference. -/
abbrev Earlier : List Char → List Char → Prop := List.Shortlex (· < ·)

namespace Earlier

variable {v w : List Char} {c d : Char}

theorem wellFounded : WellFounded Earlier :=
  List.Shortlex.wf (InvImage.wf Char.toNat Nat.lt_wfRel.wf)

theorem of_nil (h : w ≠ []) : Earlier [] w := (List.shortlex_nil_or_eq_nil w).resolve_right h

theorem lex_append {v w : List Char} (hlength : v.length = w.length) (h : List.Lex (· < ·) v w)
    (s t : List Char) : List.Lex (· < ·) (v ++ s) (w ++ t) := by
  induction h with
  | nil => simp at hlength
  | cons _ ih => exact .cons (ih (by simpa using hlength))
  | rel hlt => exact .rel hlt

theorem snoc (h : Earlier v w) (c d : Char) : Earlier (v ++ [c]) (w ++ [d]) := by
  rcases List.shortlex_def.1 h with hlt | ⟨heq, hlex⟩
  · exact .of_length_lt (by simpa using hlt)
  · exact .of_lex (by simpa using heq) (lex_append heq hlex _ _)

theorem snoc_of_lt (w : List Char) (h : c < d) : Earlier (w ++ [c]) (w ++ [d]) :=
  ((List.shortlex_singleton_iff c d).2 h).append_left w

end Earlier

namespace Dfa

variable {dfa D E : Dfa} {p q i j : Nat} {c : Char} {v w : List Char}

/-- Every state and every symbol is part of the reading of some accepted word. -/
structure Trim (dfa : Dfa) : Prop where
  wellFormed : dfa.WellFormed
  reach : ∀ q < dfa.size, ∃ w, dfa.asPartial.run? dfa.start w = some q
  live : ∀ q < dfa.size, ∃ w, dfa.asPartial.AcceptsFrom q w
  used : ∀ c ∈ dfa.alphabet, ∃ v w, dfa.asPartial.Accepts (v ++ c :: w)

/-- States of lower numbers are led to by earlier words. -/
def Ranked (dfa : Dfa) : Prop :=
  ∀ i j w, i < j → dfa.asPartial.run? dfa.start w = some j →
    ∃ v, Earlier v w ∧ dfa.asPartial.run? dfa.start v = some i

/-- No two states accept the same words. -/
def Reduced (dfa : Dfa) : Prop :=
  ∀ p < dfa.size, ∀ q < dfa.size,
    (∀ w, dfa.asPartial.AcceptsFrom p w ↔ dfa.asPartial.AcceptsFrom q w) → p = q

/-- The states are those that the language needs, in the order in which words lead to them. -/
structure Canonical (dfa : Dfa) : Prop extends Trim dfa where
  reduced : dfa.Reduced
  ranked : dfa.Ranked

/-- The automata accept the same words. -/
def SameLanguage (D E : Dfa) : Prop := ∀ w, D.asPartial.Accepts w ↔ E.asPartial.Accepts w

theorem SameLanguage.symm (h : SameLanguage D E) : SameLanguage E D := fun w => (h w).symm

/-- Some word leads to both states. -/
def Matches (D E : Dfa) (p q : Nat) : Prop :=
  ∃ v, D.asPartial.run? D.start v = some p ∧ E.asPartial.run? E.start v = some q

theorem Matches.symm (h : Matches D E p q) : Matches E D q p := by
  obtain ⟨v, hp, hq⟩ := h
  exact ⟨v, hq, hp⟩

theorem Trim.run_lt (h : Trim dfa) (hrun : dfa.asPartial.run? dfa.start w = some q) : q < dfa.size :=
  Dfa.run_lt h.wellFormed h.wellFormed.start_lt hrun

theorem Matches.acceptsFrom_iff (hD : Trim D) (hlang : SameLanguage D E) (h : Matches D E p q) :
    ∀ w, D.asPartial.AcceptsFrom p w ↔ E.asPartial.AcceptsFrom q w := by
  obtain ⟨v, hp, hq⟩ := h
  obtain ⟨q', hq', hiff⟩ := PartialAutomaton.exists_of_live hlang hp (hD.live p (hD.run_lt hp))
  obtain rfl : q = q' := Option.some.inj (hq.symm.trans hq')
  exact hiff

theorem Matches.run (hD : Trim D) (hE : Trim E) (hreduced : E.Reduced) (hlang : SameLanguage D E)
    (h : Matches D E p q) (hw : D.asPartial.run? D.start w = some p) :
    E.asPartial.run? E.start w = some q := by
  obtain ⟨q', hq', hiff⟩ := PartialAutomaton.exists_of_live hlang hw (hD.live p (hD.run_lt hw))
  obtain ⟨v, hp, hq⟩ := h
  have hsame : q = q' := by
    refine hreduced q (hE.run_lt hq) q' (hE.run_lt hq') fun u => ?_
    rw [← Matches.acceptsFrom_iff hD hlang ⟨v, hp, hq⟩ u]
    exact hiff u
  rw [hsame]
  exact hq'

theorem exists_matches (hD : Trim D) (hlang : SameLanguage D E) (hp : p < D.size) :
    ∃ q, Matches D E p q := by
  obtain ⟨v, hv⟩ := hD.reach p hp
  obtain ⟨q, hq, _⟩ := PartialAutomaton.exists_of_live hlang hv (hD.live p hp)
  exact ⟨q, v, hv, hq⟩

/-- **Size.** Other automata with the same language have no fewer states. -/
theorem exists_injective {σ : Type*} (A : PartialAutomaton σ) (hD : Trim D) (hreduced : D.Reduced)
    (hlang : ∀ w, D.asPartial.Accepts w ↔ A.Accepts w) :
    ∃ f : Fin D.size → σ, Function.Injective f := by
  have hexists : ∀ q : Fin D.size, ∃ r, ∀ w, D.asPartial.AcceptsFrom q w ↔ A.AcceptsFrom r w := by
    intro q
    obtain ⟨v, hv⟩ := hD.reach q q.isLt
    obtain ⟨r, _, hr⟩ := PartialAutomaton.exists_of_live hlang hv (hD.live q q.isLt)
    exact ⟨r, hr⟩
  choose f hf using hexists
  refine ⟨f, fun p q heq => Fin.ext (hreduced p p.isLt q q.isLt fun w => ?_)⟩
  rw [hf p w, hf q w, heq]

namespace Canonical

theorem matches_left (hD : Canonical D) (hE : Canonical E) (hlang : SameLanguage D E)
    (hp : Matches D E p j) (hq : Matches D E q j) : p = q := by
  obtain ⟨v, hv, hj⟩ := hp
  have hq' := hq.symm.run hE.toTrim hD.toTrim hD.reduced hlang.symm hj
  exact Option.some.inj (hv.symm.trans hq')

/-- A state `p` of either automaton cannot be matched with a later one of the other: each word to the
one would have an earlier one to the other. -/
theorem not_crossed {r : Nat} (hD : Canonical D) (hE : Canonical E) (hlang : SameLanguage D E)
    (hpq : p < q) (hpr : p < r) (hq : Matches D E p q) (hr : Matches D E r p) : False := by
  have hnone : ∀ w, D.asPartial.run? D.start w ≠ some r ∧ E.asPartial.run? E.start w ≠ some q := by
    intro w
    induction w using Earlier.wellFounded.induction with
    | _ w ih =>
      constructor
      · intro hw
        obtain ⟨v, hv, hrun⟩ := hD.ranked p r w hpr hw
        exact (ih v hv).2 (hq.run hD.toTrim hE.toTrim hE.reduced hlang hrun)
      · intro hw
        obtain ⟨v, hv, hrun⟩ := hE.ranked p q w hpq hw
        exact (ih v hv).1 (hr.symm.run hE.toTrim hD.toTrim hD.reduced hlang.symm hrun)
  obtain ⟨v, _, hv⟩ := hq
  exact (hnone v).2 hv

/-- **Numbers.** A word leads to states of the same number. -/
theorem eq_of_matches (hD : Canonical D) (hE : Canonical E) (hlang : SameLanguage D E)
    (h : Matches D E p q) : p = q := by
  obtain ⟨v, hp, hq⟩ := id h
  have hpD := hD.run_lt hp
  have hqE := hE.run_lt hq
  induction p using Nat.strongRecOn generalizing q v with
  | _ p ih =>
    have ih' : ∀ {p' q'}, p' < p → Matches D E p' q' → p' = q' := by
      intro p' q' hlt hm
      obtain ⟨u, hp', hq'⟩ := id hm
      exact ih p' hlt hm u hp' hq' (hD.run_lt hp') (hE.run_lt hq')
    rcases Nat.lt_trichotomy p q with hlt | heq | hgt
    · obtain ⟨r, hr⟩ := exists_matches hE.toTrim hlang.symm (Nat.lt_trans hlt hqE)
      rcases Nat.lt_trichotomy p r with hpr | rfl | hrp
      · exact (not_crossed hD hE hlang hlt hpr h hr.symm).elim
      · exact matches_left hE hD hlang.symm hr h.symm
      · have := ih' hrp hr.symm
        omega
    · exact heq
    · obtain ⟨r, hr⟩ := exists_matches hD.toTrim hlang (Nat.lt_trans hgt hpD)
      obtain rfl := ih' hgt hr
      exact matches_left hD hE hlang h hr

section Same

variable (hD : Canonical D) (hE : Canonical E) (hlang : SameLanguage D E)

include hD hE hlang

theorem run_eq_some (h : D.asPartial.run? D.start w = some p) :
    E.asPartial.run? E.start w = some p := by
  obtain ⟨q, hq⟩ := exists_matches hD.toTrim hlang (hD.run_lt h)
  obtain rfl := eq_of_matches hD hE hlang hq
  exact hq.run hD.toTrim hE.toTrim hE.reduced hlang h

theorem size_le : D.size ≤ E.size := by
  by_contra hlt
  obtain ⟨w, hw⟩ := hD.reach E.size (Nat.not_le.1 hlt)
  exact absurd (hE.run_lt (run_eq_some hD hE hlang hw)) (Nat.lt_irrefl _)

theorem isAccept_imp (hp : p < D.size) (h : D.isAccept p = true) : E.isAccept p = true := by
  obtain ⟨w, hw⟩ := hD.reach p hp
  have haccept : D.asPartial.Accepts w := ⟨p, h, hw⟩
  obtain ⟨q, hq, hrun⟩ := (hlang w).1 haccept
  obtain rfl : p = q := Option.some.inj ((run_eq_some hD hE hlang hw).symm.trans hrun)
  exact hq

theorem edge_imp (h : D.Edge p c q) : E.Edge p c q := by
  obtain ⟨w, hw⟩ := hD.reach p (lt_size_of_edge h)
  have hsnoc : D.asPartial.run? D.start (w ++ [c]) = some q := by
    rw [PartialAutomaton.run?_snoc, hw]
    exact edge_iff.1 h
  have hsnoc' := run_eq_some hD hE hlang hsnoc
  rw [PartialAutomaton.run?_snoc, run_eq_some hD hE hlang hw] at hsnoc'
  exact edge_iff.2 hsnoc'

theorem alphabet_imp (hc : c ∈ D.alphabet) : c ∈ E.alphabet := by
  obtain ⟨v, w, haccept⟩ := hD.used c hc
  obtain ⟨q, _, hrun⟩ := (hlang _).1 haccept
  rw [PartialAutomaton.run?_append] at hrun
  obtain ⟨p, _, hrun⟩ := Option.bind_eq_some_iff.1 hrun
  obtain ⟨r, hr, _⟩ := Option.bind_eq_some_iff.1 hrun
  exact hE.wellFormed.edge_mem (edge_iff.2 hr)

end Same

/-- **Uniqueness.** A language has at most one canonical automaton. -/
theorem sameShape (hD : Canonical D) (hE : Canonical E) (hlang : SameLanguage D E) : SameShape D E := by
  have hsize : D.size = E.size :=
    Nat.le_antisymm (size_le hD hE hlang) (size_le hE hD hlang.symm)
  refine ⟨hsize, ?_, ?_, fun q => ?_, fun q c => ?_⟩
  · exact eq_of_matches hD hE hlang ⟨[], rfl, rfl⟩
  · exact Ordered.ext_mem fun c => ⟨alphabet_imp hD hE hlang, alphabet_imp hE hD hlang.symm⟩
  · by_cases hq : q < D.size
    · rw [Bool.eq_iff_iff]
      exact ⟨isAccept_imp hD hE hlang hq, isAccept_imp hE hD hlang.symm (hsize ▸ hq)⟩
    · rw [isAccept_of_size_le (Nat.not_lt.1 hq), isAccept_of_size_le (hsize ▸ Nat.not_lt.1 hq)]
  · have hnext : D.next? q c = E.next? q c := by
      ext r
      rw [← edge_iff, ← edge_iff]
      exact ⟨edge_imp hD hE hlang, edge_imp hE hD hlang.symm⟩
    by_cases hq : q < D.size
    · rw [target_eq hq, target_eq (hsize ▸ hq), hnext]
    · rw [target_of_size_le (Nat.not_lt.1 hq), target_of_size_le (hsize ▸ Nat.not_lt.1 hq)]

end Canonical

end Dfa

end FiniteAutomata
