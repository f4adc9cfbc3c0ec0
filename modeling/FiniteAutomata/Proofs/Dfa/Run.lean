import Mathlib.Data.Set.Basic
import FiniteAutomata.Dfa
import FiniteAutomata.Proofs.Returns
/-!
# Runs of deterministic automata

A `PartialAutomaton` is deterministic, over any type of states, and its transition function need not
be total. Every well-formed automaton of numbered states is one (`Dfa.asPartial`), and reads words as
it does (`Dfa.run_eq`).

Main statement: in automata that accept the same words, a word leads to states that accept the same
words, as long as some continuation is accepted (`PartialAutomaton.exists_of_live`).
-/

namespace FiniteAutomata

/-- A deterministic automaton that may lack targets. -/
structure PartialAutomaton (σ : Type*) where
  start : σ
  next? : σ → Char → Option σ
  accept : Set σ

namespace PartialAutomaton

variable {σ τ : Type*} {A : PartialAutomaton σ} {B : PartialAutomaton τ} {p q r : σ} {c : Char}
  {v w : List Char}

/-- Where a word leads from a state. -/
def run? (A : PartialAutomaton σ) (q : σ) : List Char → Option σ
  | [] => some q
  | c :: rest => (A.next? q c).bind fun r => A.run? r rest

/-- The word leads from the state to an accepting one. -/
def AcceptsFrom (A : PartialAutomaton σ) (q : σ) (w : List Char) : Prop :=
  ∃ r ∈ A.accept, A.run? q w = some r

/-- The word leads from the start to an accepting state. -/
def Accepts (A : PartialAutomaton σ) (w : List Char) : Prop := A.AcceptsFrom A.start w

@[simp] theorem run?_nil : A.run? q [] = some q := rfl

@[simp] theorem run?_cons : A.run? q (c :: w) = (A.next? q c).bind fun r => A.run? r w := rfl

theorem run?_append : A.run? q (v ++ w) = (A.run? q v).bind fun r => A.run? r w := by
  induction v generalizing q with
  | nil => rfl
  | cons c v ih => simp only [List.cons_append, run?_cons, ih, Option.bind_assoc]

theorem run?_snoc : A.run? q (w ++ [c]) = (A.run? q w).bind fun r => A.next? r c := by
  rw [run?_append]
  simp

@[simp] theorem acceptsFrom_nil : A.AcceptsFrom q [] ↔ q ∈ A.accept := by
  simp [AcceptsFrom]

theorem acceptsFrom_append (h : A.run? q v = some r) :
    A.AcceptsFrom q (v ++ w) ↔ A.AcceptsFrom r w := by
  unfold AcceptsFrom
  rw [run?_append, h]
  rfl

theorem exists_run_of_acceptsFrom_append (h : A.AcceptsFrom q (v ++ w)) : ∃ r, A.run? q v = some r := by
  obtain ⟨s, _, hrun⟩ := h
  rw [run?_append] at hrun
  obtain ⟨r, hr, _⟩ := Option.bind_eq_some_iff.1 hrun
  exact ⟨r, hr⟩

/-- Automata with the same language follow each other on all words that can go on to be accepted. -/
theorem exists_of_live (hlang : ∀ w, A.Accepts w ↔ B.Accepts w) (hrun : A.run? A.start v = some p)
    (hlive : ∃ w, A.AcceptsFrom p w) :
    ∃ q, B.run? B.start v = some q ∧ ∀ w, A.AcceptsFrom p w ↔ B.AcceptsFrom q w := by
  obtain ⟨u, hu⟩ := hlive
  have hvu : B.Accepts (v ++ u) := (hlang _).1 ((acceptsFrom_append hrun).2 hu)
  obtain ⟨q, hq⟩ := exists_run_of_acceptsFrom_append hvu
  refine ⟨q, hq, fun w => ?_⟩
  rw [← acceptsFrom_append hrun, ← acceptsFrom_append hq]
  exact hlang (v ++ w)

end PartialAutomaton

namespace Dfa

variable {dfa : Dfa} {p q : Nat} {c : Char} {w : List Char}

/-- The target of a state for a symbol, if both are there. -/
def next? (dfa : Dfa) (p : StateId) (c : Char) : Option StateId :=
  dfa.states[p]?.bind fun s => s.edges.get? c

/-- The automaton as one over numbers. -/
def asPartial (dfa : Dfa) : PartialAutomaton StateId :=
  ⟨dfa.start, dfa.next?, {q | dfa.isAccept q = true}⟩

theorem state_eq_ok {s : DfaState} : dfa.state p = .ok s ↔ dfa.states[p]? = some s := by
  unfold state
  split <;> simp_all

theorem edge_iff : dfa.Edge p c q ↔ dfa.next? p c = some q := by
  unfold Edge next?
  rw [Option.bind_eq_some_iff]

theorem lt_size_of_edge (h : dfa.Edge p c q) : p < dfa.size := by
  obtain ⟨s, hs, _⟩ := h
  exact (Array.getElem?_eq_some_iff.1 hs).1

theorem isAccept_of_size_le (hq : dfa.size ≤ q) : dfa.isAccept q = false := by
  unfold isAccept
  rw [show dfa.states[q]? = none from Array.getElem?_eq_none hq]
  rfl

theorem target_eq (hp : p < dfa.size) : dfa.target p c = .ok (dfa.next? p c) := by
  unfold target next? state
  rw [show dfa.states[p]? = some dfa.states[p] from Array.getElem?_eq_getElem hp]
  rfl

theorem target_of_size_le (hp : dfa.size ≤ p) : dfa.target p c = .error (.unknownState p) := by
  unfold target state
  rw [show dfa.states[p]? = none from Array.getElem?_eq_none hp]
  rfl

theorem run_cons_of_some (h : dfa.next? p c = some q) : dfa.run p (c :: w) = dfa.run q w := by
  rw [run, target_eq (lt_size_of_edge (edge_iff.2 h)), h]
  rfl

theorem run_cons_of_none (hp : p < dfa.size) (h : dfa.next? p c = none) :
    dfa.run p (c :: w) = .ok none := by
  rw [run, target_eq hp, h]
  rfl

/-- A run that ends in a state meets no fault, even in an automaton that is not well formed. -/
theorem run_eq_ok_some_iff :
    dfa.run p w = .ok (some q) ↔ dfa.asPartial.run? p w = some q := by
  induction w generalizing p with
  | nil =>
    rw [PartialAutomaton.run?_nil, run, Except.ok.injEq]
  | cons c w ih =>
    have hcons : dfa.asPartial.run? p (c :: w) =
        (dfa.next? p c).bind fun r => dfa.asPartial.run? r w := rfl
    cases hnext : dfa.next? p c with
    | some r =>
      rw [run_cons_of_some hnext, ih, hcons, hnext]
      rfl
    | none =>
      rw [hcons, hnext]
      refine iff_of_false (fun hrun => ?_) (Option.some_ne_none q).symm
      by_cases hp : p < dfa.size
      · rw [run_cons_of_none hp hnext] at hrun
        cases hrun
      · rw [run, target_of_size_le (Nat.not_lt.1 hp)] at hrun
        cases hrun

/-- The ends of all edges are states, and the alphabet has all their symbols. The start may be any
number. -/
structure EdgesWithin (dfa : Dfa) : Prop where
  edge_lt : ∀ {p c q}, dfa.Edge p c q → q < dfa.size
  edge_mem : ∀ {p c q}, dfa.Edge p c q → c ∈ dfa.alphabet

theorem WellFormed.edgesWithin (hdfa : dfa.WellFormed) : dfa.EdgesWithin :=
  ⟨hdfa.edge_lt, hdfa.edge_mem⟩

theorem run_eq (hdfa : dfa.WellFormed) (hp : p < dfa.size) :
    dfa.run p w = .ok (dfa.asPartial.run? p w) := by
  induction w generalizing p with
  | nil => rfl
  | cons c w ih =>
    rw [PartialAutomaton.run?_cons]
    show _ = Except.ok ((dfa.next? p c).bind fun r => dfa.asPartial.run? r w)
    cases hnext : dfa.next? p c with
    | none => exact run_cons_of_none hp hnext
    | some q =>
      rw [run_cons_of_some hnext]
      exact ih (hdfa.edge_lt (edge_iff.2 hnext))

theorem run_lt (hdfa : dfa.WellFormed) (hp : p < dfa.size) (h : dfa.asPartial.run? p w = some q) :
    q < dfa.size := by
  induction w generalizing p with
  | nil =>
    obtain rfl : p = q := Option.some.inj h
    exact hp
  | cons c w ih =>
    obtain ⟨r, hr, hrun⟩ := Option.bind_eq_some_iff.1 h
    exact ih (hdfa.edge_lt (edge_iff.2 hr)) hrun

/-- Reading the word from the state ends in an accepting one. -/
def AcceptsFrom (dfa : Dfa) (p : StateId) (w : List Char) : Prop :=
  ∃ q, dfa.run p w = .ok (some q) ∧ dfa.isAccept q = true

theorem acceptsFrom_iff (hdfa : dfa.WellFormed) (hp : p < dfa.size) :
    dfa.AcceptsFrom p w ↔ dfa.asPartial.AcceptsFrom p w := by
  unfold AcceptsFrom PartialAutomaton.AcceptsFrom
  simp only [run_eq hdfa hp, Except.ok.injEq, and_comm]
  rfl

theorem acceptsFrom_iff_asPartial : dfa.AcceptsFrom p w ↔ dfa.asPartial.AcceptsFrom p w := by
  unfold AcceptsFrom PartialAutomaton.AcceptsFrom
  simp only [run_eq_ok_some_iff, and_comm]
  rfl

theorem accepts_eq_of_run {end? : Option StateId} (h : dfa.run dfa.start w = .ok end?) :
    dfa.accepts w = .ok ((end?.map dfa.isAccept).getD false) := by
  unfold accepts
  rw [h]
  cases end? <;> rfl

theorem accepts_returns (hdfa : dfa.WellFormed) (w : List Char) :
    Returns (dfa.accepts w) fun b => b = true ↔ dfa.asPartial.Accepts w := by
  refine ⟨_, accepts_eq_of_run (run_eq hdfa hdfa.start_lt), ?_⟩
  unfold PartialAutomaton.Accepts PartialAutomaton.AcceptsFrom
  show _ ↔ ∃ r ∈ dfa.asPartial.accept, dfa.asPartial.run? dfa.start w = some r
  cases dfa.asPartial.run? dfa.start w with
  | none => simp
  | some q => simp [asPartial]

end Dfa

end FiniteAutomata
