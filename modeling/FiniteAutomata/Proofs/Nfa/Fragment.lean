import FiniteAutomata.Nfa.Fragment
import FiniteAutomata.Proofs.Language
import FiniteAutomata.Proofs.Nfa.Path
/-!
# Fragments and their languages

`IsFragment edge lo hi f L` says that the states from `lo` up to `hi` are a part of an automaton that
no edge leaves, that the words from the start of `f` to its accepting state are those of `L`, and that
every state of the part lies on such a way. Nothing leaves the accepting state.

Each operator joins fragments by edges that read nothing: `IsFragment.concat`, `union`, `star` and
`plus` give the language of what it makes, whatever other fragments the automaton has.
-/

namespace FiniteAutomata

open scoped Computability

/-- The states from `lo` up to `hi` make up the fragment `f` with the language `L`. -/
structure IsFragment (edge : EdgeRelation) (lo hi : Nat) (f : Fragment) (L : Language Char) : Prop where
  start_mem : f.start ∈ Set.Ico lo hi
  accept_mem : f.accept ∈ Set.Ico lo hi
  edge_mem : ∀ p ∈ Set.Ico lo hi, ∀ l q, edge p l q → q ∈ Set.Ico lo hi
  accept_final : ∀ l q, ¬ edge f.accept l q
  path_iff : ∀ w, Path edge f.start w f.accept ↔ w ∈ L
  reach : ∀ p ∈ Set.Ico lo hi, ∃ w, Path edge f.start w p
  coreach : ∀ p ∈ Set.Ico lo hi, ∃ w, Path edge p w f.accept

namespace IsFragment

variable {edge edge' : EdgeRelation} {lo mid hi : Nat} {a b f : Fragment} {L M : Language Char}

theorem congr (h : IsFragment edge lo hi f L)
    (hedge : ∀ p ∈ Set.Ico lo hi, ∀ l q, edge' p l q ↔ edge p l q) : IsFragment edge' lo hi f L := by
  have hmem' : ∀ p ∈ Set.Ico lo hi, ∀ l q, edge' p l q → q ∈ Set.Ico lo hi :=
    fun p hp l q he => h.edge_mem p hp l q ((hedge p hp l q).1 he)
  have hpath : ∀ {p w q}, p ∈ Set.Ico lo hi → (Path edge' p w q ↔ Path edge p w q) := by
    intro p w q hp
    constructor
    · exact Path.mono_on hmem' (fun p hp l q => (hedge p hp l q).1) hp
    · exact Path.mono_on h.edge_mem (fun p hp l q => (hedge p hp l q).2) hp
  refine ⟨h.start_mem, h.accept_mem, hmem', fun l q he => ?_, fun w => ?_, fun p hp => ?_,
    fun p hp => ?_⟩
  · exact h.accept_final l q ((hedge _ h.accept_mem l q).1 he)
  · rw [hpath h.start_mem]
    exact h.path_iff w
  · obtain ⟨w, hw⟩ := h.reach p hp
    exact ⟨w, (hpath h.start_mem).2 hw⟩
  · obtain ⟨w, hw⟩ := h.coreach p hp
    exact ⟨w, (hpath hp).2 hw⟩

/-! ## Symbols and the empty word -/

theorem literal {c : Char} (hedge : ∀ p ∈ Set.Ico lo (lo + 2), ∀ l q,
    edge p l q ↔ p = lo ∧ l = .symbol c ∧ q = lo + 1) :
    IsFragment edge lo (lo + 2) ⟨lo, lo + 1⟩ {[c]} := by
  have hstart : lo ∈ Set.Ico lo (lo + 2) := ⟨Nat.le_refl _, by omega⟩
  have hend : lo + 1 ∈ Set.Ico lo (lo + 2) := ⟨by omega, by omega⟩
  have hfirst : edge lo (.symbol c) (lo + 1) := (hedge lo hstart _ _).2 ⟨rfl, rfl, rfl⟩
  have hword : Path edge lo [c] (lo + 1) := .symbol hfirst (.refl _)
  have hfinal : ∀ l q, ¬ edge (lo + 1) l q := by
    intro l q he
    have := ((hedge _ hend l q).1 he).1
    omega
  have hcases : ∀ p ∈ Set.Ico lo (lo + 2), p = lo ∨ p = lo + 1 := by
    rintro p ⟨_, _⟩
    omega
  refine ⟨hstart, hend, ?_, hfinal, ?_, ?_, ?_⟩
  · intro p hp l q he
    obtain ⟨_, _, rfl⟩ := (hedge p hp l q).1 he
    exact hend
  · intro w
    constructor
    · intro hw
      cases hw with
      | epsilon first => exact nomatch ((hedge _ hstart _ _).1 first).2.1
      | symbol first rest =>
        obtain ⟨_, hl, rfl⟩ := (hedge _ hstart _ _).1 first
        obtain ⟨_, rfl⟩ := rest.eq_of_final hfinal
        cases hl
        rfl
    · intro hw
      obtain rfl : w = [c] := hw
      exact hword
  · intro p hp
    rcases hcases p hp with rfl | rfl
    · exact ⟨[], .refl _⟩
    · exact ⟨[c], hword⟩
  · intro p hp
    rcases hcases p hp with rfl | rfl
    · exact ⟨[c], hword⟩
    · exact ⟨[], .refl _⟩

theorem single (hfinal : ∀ l q, ¬ edge lo l q) : IsFragment edge lo (lo + 1) ⟨lo, lo⟩ 1 := by
  have hmem : lo ∈ Set.Ico lo (lo + 1) := ⟨Nat.le_refl _, by omega⟩
  have heq : ∀ p ∈ Set.Ico lo (lo + 1), p = lo := by
    rintro p ⟨_, _⟩
    omega
  refine ⟨hmem, hmem, ?_, hfinal, ?_, ?_, ?_⟩
  · intro p hp l q he
    rw [heq p hp] at he
    exact absurd he (hfinal l q)
  · intro w
    rw [Language.mem_one]
    constructor
    · exact fun hw => (hw.eq_of_final hfinal).2
    · rintro rfl
      exact .refl _
  · intro p hp
    rw [heq p hp]
    exact ⟨[], .refl _⟩
  · intro p hp
    rw [heq p hp]
    exact ⟨[], .refl _⟩

/-! ## Fragments joined by edges that read nothing -/

section

variable {new : List (Nat × Nat)} {s t p : Nat} {v w : List Char}

theorem path_self_iff (hfinal : ∀ l q, ¬ edge t l q) : Path edge t w t ↔ w = [] := by
  constructor
  · exact fun h => (h.eq_of_final hfinal).2
  · rintro rfl
    exact .refl _

/-- New edges leave a part of the automaton closed if they lead into it. -/
theorem link_mem {S : Set Nat} (hedge : ∀ p ∈ S, ∀ l q, edge p l q → q ∈ S)
    (hnew : ∀ p q, (p, q) ∈ new → q ∈ S) : ∀ p ∈ S, ∀ l q, link edge new p l q → q ∈ S := by
  rintro p hp l q (he | ⟨_, hmem⟩)
  · exact hedge p hp l q he
  · exact hnew p q hmem

/-- Who gets to the start of a fragment gets to all its states. -/
theorem reach_link (ha : IsFragment edge lo hi a L) (hin : Path (link edge new) s v a.start)
    (hp : p ∈ Set.Ico lo hi) : ∃ w, Path (link edge new) s w p := by
  obtain ⟨w, hw⟩ := ha.reach p hp
  exact ⟨_, hin.trans (hw.to_link _)⟩

/-- What the end of a fragment gets to, all its states get to. -/
theorem coreach_link (ha : IsFragment edge lo hi a L) (hout : Path (link edge new) a.accept v t)
    (hp : p ∈ Set.Ico lo hi) : ∃ w, Path (link edge new) p w t := by
  obtain ⟨w, hw⟩ := ha.coreach p hp
  exact ⟨_, (hw.to_link _).trans hout⟩

/-- A way on from the end of `a` to a state outside, and no other: the words that lead there are those
that lead to the end of `a`. -/
theorem path_leave_iff (ha : IsFragment edge lo hi a L)
    (hfrom : ∀ p ∈ Set.Ico lo hi, ∀ q, (p, q) ∈ new → p = a.accept ∧ q = t)
    (ht : (a.accept, t) ∈ new) (hout : t ∉ Set.Ico lo hi) (hfinal : ∀ l q, ¬ link edge new t l q)
    (hp : p ∈ Set.Ico lo hi) : Path (link edge new) p w t ↔ Path edge p w a.accept := by
  rw [Path.link_exit_iff ha.edge_mem hfrom ht hp hout]
  simp [path_self_iff hfinal]

/-- A way back from the end of `a` to its start, and a way on to a state outside: the words that lead
there go through `a` any number of times, once at least from its start. -/
theorem path_loop_iff (ha : IsFragment edge lo hi a L)
    (hfrom : ∀ p ∈ Set.Ico lo hi, ∀ q, (p, q) ∈ new → p = a.accept ∧ (q = a.start ∨ q = t))
    (hback : (a.accept, a.start) ∈ new) (ht : (a.accept, t) ∈ new) (hout : t ∉ Set.Ico lo hi)
    (hfinal : ∀ l q, ¬ link edge new t l q) : Path (link edge new) a.start w t ↔ w ∈ L * L∗ := by
  rw [Path.link_loop_iff ha.edge_mem hfrom hback ht ha.start_mem ha.path_iff ha.start_mem hout,
    Language.mem_mul]
  simp [ha.path_iff, path_self_iff hfinal]

end

theorem edge_mem_append (ha : IsFragment edge lo mid a L) (hb : IsFragment edge mid hi b M) :
    ∀ p ∈ Set.Ico lo hi, ∀ l q, edge p l q → q ∈ Set.Ico lo hi := by
  obtain ⟨_, _⟩ := ha.start_mem
  obtain ⟨_, _⟩ := hb.start_mem
  rintro p ⟨hlo, hhi⟩ l q he
  rw [Set.mem_Ico]
  by_cases hp : p < mid
  · obtain ⟨_, _⟩ := ha.edge_mem p ⟨hlo, hp⟩ l q he
    omega
  · obtain ⟨_, _⟩ := hb.edge_mem p ⟨Nat.not_lt.1 hp, hhi⟩ l q he
    omega

theorem edge_mem_add {n : Nat}
    (hedge : ∀ p ∈ Set.Ico lo hi, ∀ l q, edge p l q → q ∈ Set.Ico lo hi)
    (hnew : ∀ p, hi ≤ p → ∀ l q, ¬ edge p l q) :
    ∀ p ∈ Set.Ico lo (hi + n), ∀ l q, edge p l q → q ∈ Set.Ico lo (hi + n) := by
  rintro p ⟨hlo, _⟩ l q he
  by_cases hp : p < hi
  · obtain ⟨hq₁, hq₂⟩ := hedge p ⟨hlo, hp⟩ l q he
    exact ⟨hq₁, by omega⟩
  · exact absurd he (hnew p (Nat.not_lt.1 hp) l q)

theorem concat (ha : IsFragment edge lo mid a L) (hb : IsFragment edge mid hi b M) :
    IsFragment (link edge [(a.accept, b.start)]) lo hi ⟨a.start, b.accept⟩ (L * M) := by
  obtain ⟨ha₁, ha₂⟩ := ha.start_mem
  obtain ⟨ha₃, ha₄⟩ := ha.accept_mem
  obtain ⟨hb₁, hb₂⟩ := hb.start_mem
  obtain ⟨hb₃, hb₄⟩ := hb.accept_mem
  have hstart : a.start ∈ Set.Ico lo hi := ⟨ha₁, by omega⟩
  have hend : b.accept ∈ Set.Ico lo hi := ⟨by omega, hb₄⟩
  have hout : b.accept ∉ Set.Ico lo mid := fun h => absurd h.2 (Nat.not_lt.2 hb₃)
  -- the new edge leaves the second fragment as it is
  have hb' : IsFragment (link edge [(a.accept, b.start)]) mid hi b M := by
    refine hb.congr fun p hp l q => link_iff_of_forall_ne fun q hq => ?_
    obtain ⟨rfl, _⟩ : p = a.accept ∧ q = b.start := by simpa using hq
    exact absurd hp.1 (Nat.not_le.2 ha₄)
  have hexit : ∀ p ∈ Set.Ico lo mid, ∀ w,
      Path (link edge [(a.accept, b.start)]) p w b.accept ↔
        ∃ u, Path edge p u a.accept ∧ ∃ v ∈ M, u ++ v = w := by
    intro p hp w
    rw [Path.link_exit_iff ha.edge_mem (fun p _ q hq => by simpa using hq) List.mem_cons_self hp hout]
    simp only [hb'.path_iff]
  have hbridge : Path (link edge [(a.accept, b.start)]) a.accept [] b.start :=
    .of_link_mem List.mem_cons_self
  obtain ⟨u, hu⟩ := ha.reach a.accept ⟨ha₃, ha₄⟩
  obtain ⟨v, hv⟩ := hb.coreach b.start ⟨hb₁, hb₂⟩
  refine ⟨hstart, hend, link_mem (ha.edge_mem_append hb) ?_, hb'.accept_final, ?_, ?_, ?_⟩
  · intro p q hq
    obtain ⟨_, rfl⟩ : p = a.accept ∧ q = b.start := by simpa using hq
    exact ⟨by omega, hb₂⟩
  · intro w
    rw [hexit _ ⟨ha₁, ha₂⟩, Language.mem_mul]
    simp only [ha.path_iff]
  · rintro p ⟨hp₁, hp₂⟩
    by_cases hp : p < mid
    · exact ha.reach_link (.refl _) ⟨hp₁, hp⟩
    · exact hb.reach_link ((hu.to_link _).trans hbridge) ⟨Nat.not_lt.1 hp, hp₂⟩
  · rintro p ⟨hp₁, hp₂⟩
    by_cases hp : p < mid
    · exact ha.coreach_link (hbridge.trans (hv.to_link _)) ⟨hp₁, hp⟩
    · exact hb.coreach_link (.refl _) ⟨Nat.not_lt.1 hp, hp₂⟩

theorem union (ha : IsFragment edge lo mid a L) (hb : IsFragment edge mid hi b M)
    (hnew : ∀ p, hi ≤ p → ∀ l q, ¬ edge p l q) :
    IsFragment (link edge [(hi, a.start), (hi, b.start), (a.accept, hi + 1), (b.accept, hi + 1)])
      lo (hi + 2) ⟨hi, hi + 1⟩ (L + M) := by
  obtain ⟨ha₁, ha₂⟩ := ha.start_mem
  obtain ⟨ha₃, ha₄⟩ := ha.accept_mem
  obtain ⟨hb₁, hb₂⟩ := hb.start_mem
  obtain ⟨hb₃, hb₄⟩ := hb.accept_mem
  generalize hN : [(hi, a.start), (hi, b.start), (a.accept, hi + 1), (b.accept, hi + 1)] = new
  have hpairs : ∀ {p q : Nat}, (p, q) ∈ new ↔ (p = hi ∧ (q = a.start ∨ q = b.start)) ∨
      ((p = a.accept ∨ p = b.accept) ∧ q = hi + 1) := by
    intro p q
    simp only [← hN, List.mem_cons, Prod.mk.injEq, List.not_mem_nil]
    tauto
  have hstart : hi ∈ Set.Ico lo (hi + 2) := ⟨by omega, by omega⟩
  have hend : hi + 1 ∈ Set.Ico lo (hi + 2) := ⟨by omega, by omega⟩
  have hfinal : ∀ l q, ¬ link edge new (hi + 1) l q := by
    rintro l q (he | ⟨_, hmem⟩)
    · exact hnew (hi + 1) (by omega) l q he
    · have := hpairs.1 hmem
      omega
  -- both fragments are left to the new end alone
  have hleft : ∀ p ∈ Set.Ico lo mid, ∀ w,
      Path (link edge new) p w (hi + 1) ↔ Path edge p w a.accept := by
    refine fun p hp w => ha.path_leave_iff ?_ (hpairs.2 (by simp)) ?_ hfinal hp
    · rintro p ⟨_, _⟩ q hq
      have := hpairs.1 hq
      omega
    · exact fun h => absurd h.2 (by omega)
  have hright : ∀ p ∈ Set.Ico mid hi, ∀ w,
      Path (link edge new) p w (hi + 1) ↔ Path edge p w b.accept := by
    refine fun p hp w => hb.path_leave_iff ?_ (hpairs.2 (by simp)) ?_ hfinal hp
    · rintro p ⟨_, _⟩ q hq
      have := hpairs.1 hq
      omega
    · exact fun h => absurd h.2 (by omega)
  have hword : ∀ w, Path (link edge new) hi w (hi + 1) ↔ w ∈ L + M := by
    intro w
    rw [Path.link_fresh_iff (hnew hi (Nat.le_refl _)) (by omega), Language.mem_add, ← ha.path_iff,
      ← hb.path_iff, ← hleft _ ⟨ha₁, ha₂⟩, ← hright _ ⟨hb₁, hb₂⟩]
    have hne : ¬ (hi = a.accept ∨ hi = b.accept) := by omega
    simp [hpairs, hne, or_and_right, exists_or]
  have hin₁ : Path (link edge new) hi [] a.start := .of_link_mem (hpairs.2 (by simp))
  have hin₂ : Path (link edge new) hi [] b.start := .of_link_mem (hpairs.2 (by simp))
  have hout₁ : Path (link edge new) a.accept [] (hi + 1) := .of_link_mem (hpairs.2 (by simp))
  have hout₂ : Path (link edge new) b.accept [] (hi + 1) := .of_link_mem (hpairs.2 (by simp))
  obtain ⟨u, hu⟩ := ha.coreach_link hout₁ ⟨ha₁, ha₂⟩
  have hthrough : Path (link edge new) hi u (hi + 1) := hin₁.trans hu
  have hcases : ∀ p ∈ Set.Ico lo (hi + 2),
      p ∈ Set.Ico lo mid ∨ p ∈ Set.Ico mid hi ∨ p = hi ∨ p = hi + 1 := by
    intro p hp
    simp only [Set.mem_Ico] at *
    omega
  refine ⟨hstart, hend, link_mem (edge_mem_add (ha.edge_mem_append hb) hnew) ?_, hfinal, hword,
    ?_, ?_⟩
  · intro p q hq
    rw [Set.mem_Ico]
    have := hpairs.1 hq
    omega
  · intro p hp
    rcases hcases p hp with hp | hp | rfl | rfl
    · exact ha.reach_link hin₁ hp
    · exact hb.reach_link hin₂ hp
    · exact ⟨[], .refl _⟩
    · exact ⟨u, hthrough⟩
  · intro p hp
    rcases hcases p hp with hp | hp | rfl | rfl
    · exact ha.coreach_link hout₁ hp
    · exact hb.coreach_link hout₂ hp
    · exact ⟨u, hthrough⟩
    · exact ⟨[], .refl _⟩

theorem star (ha : IsFragment edge lo hi a L) (hnew : ∀ p, hi ≤ p → ∀ l q, ¬ edge p l q) :
    IsFragment (link edge [(hi, a.start), (hi, hi + 1), (a.accept, a.start), (a.accept, hi + 1)])
      lo (hi + 2) ⟨hi, hi + 1⟩ L∗ := by
  obtain ⟨ha₁, ha₂⟩ := ha.start_mem
  obtain ⟨ha₃, ha₄⟩ := ha.accept_mem
  generalize hN : [(hi, a.start), (hi, hi + 1), (a.accept, a.start), (a.accept, hi + 1)] = new
  have hpairs : ∀ {p q : Nat}, (p, q) ∈ new ↔ (p = hi ∨ p = a.accept) ∧ (q = a.start ∨ q = hi + 1) := by
    intro p q
    simp only [← hN, List.mem_cons, Prod.mk.injEq, List.not_mem_nil]
    tauto
  have hstart : hi ∈ Set.Ico lo (hi + 2) := ⟨by omega, by omega⟩
  have hend : hi + 1 ∈ Set.Ico lo (hi + 2) := ⟨by omega, by omega⟩
  have hout : hi + 1 ∉ Set.Ico lo hi := fun h => absurd h.2 (by omega)
  have hfinal : ∀ l q, ¬ link edge new (hi + 1) l q := by
    rintro l q (he | ⟨_, hmem⟩)
    · exact hnew (hi + 1) (by omega) l q he
    · have := hpairs.1 hmem
      omega
  have hfrom : ∀ p ∈ Set.Ico lo hi, ∀ q, (p, q) ∈ new → p = a.accept ∧ (q = a.start ∨ q = hi + 1) := by
    rintro p ⟨_, hp⟩ q hq
    obtain ⟨rfl | rfl, htarget⟩ := hpairs.1 hq
    · omega
    · exact ⟨rfl, htarget⟩
  have hloop : ∀ w, Path (link edge new) a.start w (hi + 1) ↔ w ∈ L * L∗ := fun w =>
    ha.path_loop_iff hfrom (hpairs.2 (by simp)) (hpairs.2 (by simp)) hout hfinal
  have hin : Path (link edge new) hi [] a.start := .of_link_mem (hpairs.2 (by simp))
  have hleave : Path (link edge new) a.accept [] (hi + 1) := .of_link_mem (hpairs.2 (by simp))
  have hskip : Path (link edge new) hi [] (hi + 1) := .of_link_mem (hpairs.2 (by simp))
  have hcases : ∀ p ∈ Set.Ico lo (hi + 2), p ∈ Set.Ico lo hi ∨ p = hi ∨ p = hi + 1 := by
    intro p hp
    simp only [Set.mem_Ico] at *
    omega
  refine ⟨hstart, hend, link_mem (edge_mem_add ha.edge_mem hnew) ?_, hfinal, ?_, ?_, ?_⟩
  · intro p q hq
    rw [Set.mem_Ico]
    have := hpairs.1 hq
    omega
  · intro w
    rw [Path.link_fresh_iff (hnew hi (Nat.le_refl _)) (Nat.succ_ne_self hi).symm,
      ← Language.one_add_self_mul_kstar_eq_kstar L, Language.mem_add, Language.mem_one, ← hloop,
      ← path_self_iff hfinal]
    simp [hpairs, or_comm]
  · intro p hp
    rcases hcases p hp with hp | rfl | rfl
    · exact ha.reach_link hin hp
    · exact ⟨[], .refl _⟩
    · exact ⟨[], hskip⟩
  · intro p hp
    rcases hcases p hp with hp | rfl | rfl
    · exact ha.coreach_link hleave hp
    · exact ⟨[], hskip⟩
    · exact ⟨[], .refl _⟩

theorem plus (ha : IsFragment edge lo hi a L) (hnew : ∀ p, hi ≤ p → ∀ l q, ¬ edge p l q) :
    IsFragment (link edge [(a.accept, a.start), (a.accept, hi)]) lo (hi + 1) ⟨a.start, hi⟩
      (L * L∗) := by
  obtain ⟨ha₁, ha₂⟩ := ha.start_mem
  obtain ⟨ha₃, ha₄⟩ := ha.accept_mem
  generalize hN : [(a.accept, a.start), (a.accept, hi)] = new
  have hpairs : ∀ {p q : Nat}, (p, q) ∈ new ↔ p = a.accept ∧ (q = a.start ∨ q = hi) := by
    intro p q
    simp only [← hN, List.mem_cons, Prod.mk.injEq, List.not_mem_nil]
    tauto
  have hstart : a.start ∈ Set.Ico lo (hi + 1) := ⟨ha₁, by omega⟩
  have hend : hi ∈ Set.Ico lo (hi + 1) := ⟨by omega, by omega⟩
  have hout : hi ∉ Set.Ico lo hi := fun h => absurd h.2 (Nat.lt_irrefl hi)
  have hfinal : ∀ l q, ¬ link edge new hi l q := by
    rintro l q (he | ⟨_, hmem⟩)
    · exact hnew hi (Nat.le_refl _) l q he
    · have := hpairs.1 hmem
      omega
  have hleave : Path (link edge new) a.accept [] hi := .of_link_mem (hpairs.2 (by simp))
  have hcases : ∀ p ∈ Set.Ico lo (hi + 1), p ∈ Set.Ico lo hi ∨ p = hi := by
    intro p hp
    simp only [Set.mem_Ico] at *
    omega
  refine ⟨hstart, hend, link_mem (edge_mem_add ha.edge_mem hnew) ?_, hfinal, fun w => ?_, ?_, ?_⟩
  · intro p q hq
    rw [Set.mem_Ico]
    have := hpairs.1 hq
    omega
  · exact ha.path_loop_iff (fun p _ q hq => hpairs.1 hq) (hpairs.2 (by simp)) (hpairs.2 (by simp))
      hout hfinal
  · intro p hp
    rcases hcases p hp with hp | rfl
    · exact ha.reach_link (.refl _) hp
    · exact ha.coreach_link hleave ⟨ha₁, ha₂⟩
  · intro p hp
    rcases hcases p hp with hp | rfl
    · exact ha.coreach_link hleave hp
    · exact ⟨[], .refl _⟩

end IsFragment

end FiniteAutomata
