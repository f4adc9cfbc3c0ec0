import FiniteAutomata.Nfa.Run
import FiniteAutomata.Proofs.Nfa.Path
import FiniteAutomata.Proofs.Returns
/-!
# Simulation and paths

`closure` adds exactly what paths without symbols lead to (`closure_returns`), and a step followed by
a closure exactly what paths with one symbol lead to (`advance_returns`). So a word is read with the
set of all states that paths spelling it lead to (`IsLive`, `liveAfter_returns`), and simulation
accepts what paths accept (`accepts_returns`).
-/

namespace FiniteAutomata

theorem Path.mem_of_epsilon_mem {edge : EdgeRelation} {S : Set Nat} {p q : Nat}
    (hS : ∀ p ∈ S, ∀ q, edge p .epsilon q → q ∈ S) (hp : p ∈ S) (h : Path edge p [] q) : q ∈ S := by
  generalize hw : ([] : List Char) = w at h
  induction h with
  | refl => exact hp
  | epsilon first _ ih => exact ih (hS _ hp _ first) hw
  | symbol => cases hw

namespace Nfa

variable {nfa : Nfa} {states : StateSet} {p q : Nat} {c : Char} {v w : List Char}

/-- The ends of all edges are states. The start may be any number. -/
structure EdgesWithin (nfa : Nfa) : Prop where
  edge_lt : ∀ {p l q}, nfa.Edge p l q → q < nfa.size

theorem WellFormed.edgesWithin (hnfa : nfa.WellFormed) : nfa.EdgesWithin := ⟨hnfa.edge_lt⟩

theorem edge_iff {s : NfaState} (hs : nfa.states[p]? = some s) {l : Label} :
    nfa.Edge p l q ↔ s.Leads l q := by
  refine ⟨?_, fun h => ⟨s, hs, h⟩⟩
  rintro ⟨t, ht, hq⟩
  obtain rfl : s = t := Option.some.inj (hs.symm.trans ht)
  exact hq

theorem mem_fresh {s : NfaState} {seen : StateSet} : q ∈ fresh s seen ↔ q ∈ s.epsilon ∧ q ∉ seen := by
  simp [fresh, Ordered.mem_toList]

/-! ## Closure -/

/-- States that are done with lead, without reading, to states that were seen. -/
def DoneWith (nfa : Nfa) (seen : StateSet) (queue : List Nat) : Prop :=
  ∀ p ∈ seen, p ∉ queue → ∀ q, nfa.Edge p .epsilon q → q ∈ seen

/-- What a state leads to is queued unless it was seen before; then the state is done with. -/
theorem DoneWith.insertAll {seen : StateSet} {id : Nat} {queue : List Nat} {s : NfaState}
    (h : nfa.DoneWith seen (id :: queue)) (hs : nfa.states[id]? = some s) :
    nfa.DoneWith (seen.insertAll (fresh s seen)) (fresh s seen ++ queue) := by
  intro p hp hnot q he
  rw [List.mem_append, not_or] at hnot
  have hp := (StateSet.mem_insertAll.1 hp).resolve_right hnot.1
  rw [StateSet.mem_insertAll]
  by_cases hpid : p = id
  · subst hpid
    by_cases hq : q ∈ seen
    · exact Or.inl hq
    · exact Or.inr (mem_fresh.2 ⟨(edge_iff hs).1 he, hq⟩)
  · exact Or.inl (h p hp (List.not_mem_cons_of_ne_of_not_mem hpid hnot.2) q he)

theorem closeFrom_returns (hnfa : nfa.EdgesWithin) {seen : StateSet} {queue : List Nat}
    (hlt : ∀ p ∈ seen, p < nfa.size) (hqueue : ∀ p ∈ queue, p ∈ seen)
    (hdone : nfa.DoneWith seen queue) :
    Returns (nfa.closeFrom seen queue) fun closed =>
      ∀ q, q ∈ closed ↔ ∃ p ∈ seen, Path nfa.Edge p [] q := by
  induction seen, queue using closeFrom.induct nfa with
  | case1 seen =>
    unfold closeFrom
    refine .pure fun q => ⟨fun hq => ⟨q, hq, .refl q⟩, ?_⟩
    rintro ⟨p, hp, hpath⟩
    exact hpath.mem_of_epsilon_mem (S := {q | q ∈ seen})
      (fun p hp q he => hdone p hp List.not_mem_nil q he) hp
  | case2 seen id rest hnone =>
    have hid : id < nfa.size := hlt id (hqueue id List.mem_cons_self)
    rw [Array.getElem?_eq_none_iff] at hnone
    exact absurd hid (Nat.not_lt.2 hnone)
  | case3 seen id rest s hs bad hbad =>
    have hmem := List.mem_of_find?_eq_some hbad
    have hle := List.find?_some hbad
    have hedge : nfa.Edge id .epsilon bad := ⟨s, hs, (mem_fresh.1 hmem).1⟩
    exact absurd (hnfa.edge_lt hedge) (Nat.not_lt.2 (of_decide_eq_true hle))
  | case4 seen id rest s hs hok ih =>
    have hid : id ∈ seen := hqueue id List.mem_cons_self
    have hedge : ∀ {q}, nfa.Edge id .epsilon q ↔ q ∈ s.epsilon := edge_iff hs
    have hmem : ∀ {q}, q ∈ seen.insertAll (fresh s seen) ↔ q ∈ seen ∨ q ∈ fresh s seen :=
      StateSet.mem_insertAll
    have hlt' : ∀ p ∈ seen.insertAll (fresh s seen), p < nfa.size := by
      intro p hp
      rcases hmem.1 hp with hp | hp
      · exact hlt p hp
      · exact hnfa.edge_lt (hedge.2 (mem_fresh.1 hp).1)
    have hqueue' : ∀ p ∈ fresh s seen ++ rest, p ∈ seen.insertAll (fresh s seen) := by
      intro p hp
      rcases List.mem_append.1 hp with hp | hp
      · exact hmem.2 (Or.inr hp)
      · exact hmem.2 (Or.inl (hqueue p (List.mem_cons_of_mem id hp)))
    unfold closeFrom
    simp only [hs]
    split
    · rename_i bad hbad
      cases hok.symm.trans hbad
    refine (ih hlt' hqueue' (hdone.insertAll hs)).mono fun closed hclosed q => ?_
    rw [hclosed q]
    constructor
    · rintro ⟨p, hp, hpath⟩
      rcases hmem.1 hp with hp | hp
      · exact ⟨p, hp, hpath⟩
      · exact ⟨id, hid, .epsilon (hedge.2 (mem_fresh.1 hp).1) hpath⟩
    · rintro ⟨p, hp, hpath⟩
      exact ⟨p, hmem.2 (Or.inl hp), hpath⟩

/-- **Closure.** Exactly what paths without symbols lead to. -/
theorem closure_returns (hnfa : nfa.EdgesWithin) (hlt : ∀ p ∈ states, p < nfa.size) :
    Returns (nfa.closure states) fun closed =>
      ∀ q, q ∈ closed ↔ ∃ p ∈ states, Path nfa.Edge p [] q :=
  closeFrom_returns hnfa hlt (fun _ h => h) fun _ hp hnot => absurd hp hnot

/-! ## Steps -/

theorem state_eq_ok {s : NfaState} : nfa.state p = .ok s ↔ nfa.states[p]? = some s := by
  unfold state
  split <;> simp_all

theorem step_returns (hlt : ∀ p ∈ states, p < nfa.size) (c : Char) :
    Returns (nfa.step states c) fun next =>
      ∀ q, q ∈ next ↔ ∃ p ∈ states, nfa.Edge p (.symbol c) q := by
  -- the states gone through and those still to come are all of them
  refine (Returns.foldlM (I := fun rest next => (∀ p ∈ rest, p < nfa.size) ∧
      ∀ q, (q ∈ next ∨ ∃ p ∈ rest, nfa.Edge p (.symbol c) q) ↔
        ∃ p ∈ states, nfa.Edge p (.symbol c) q) ?_ ?_).mono ?_
  · rintro p rest next ⟨hrest, hnext⟩
    have hp := hrest p List.mem_cons_self
    obtain ⟨s, hs⟩ : ∃ s, nfa.states[p]? = some s := ⟨_, Array.getElem?_eq_getElem hp⟩
    rw [state_eq_ok.2 hs]
    have hrest' : ∀ q ∈ rest, q < nfa.size := fun q hq => hrest q (List.mem_cons_of_mem p hq)
    simp only [List.exists_mem_cons_iff, edge_iff hs, NfaState.Leads] at hnext
    cases htargets : s.targets? c with
    | none =>
      refine ⟨next, by simp [htargets, bind, Except.bind, pure, Except.pure], hrest', fun q => ?_⟩
      rw [← hnext q]
      simp [htargets]
    | some targets =>
      refine ⟨next.union targets, by simp [htargets, bind, Except.bind, pure, Except.pure], hrest',
        fun q => ?_⟩
      rw [← hnext q, StateSet.mem_union]
      simp [htargets, or_assoc]
  · exact ⟨hlt, fun q => by simp [Ordered.mem_toList, show q ∉ (Ordered.empty : StateSet) from List.not_mem_nil]⟩
  · rintro next ⟨_, hnext⟩ q
    rw [← hnext q]
    simp

/-- **Advance.** Exactly what paths that begin with the symbol lead to. -/
theorem advance_returns (hnfa : nfa.EdgesWithin) (hlt : ∀ p ∈ states, p < nfa.size) (c : Char) :
    Returns (nfa.advance states c) fun next =>
      ∀ q, q ∈ next ↔ ∃ p ∈ states, ∃ p', nfa.Edge p (.symbol c) p' ∧ Path nfa.Edge p' [] q := by
  refine (step_returns hlt c).bind fun stepped hstepped => ?_
  have hlt' : ∀ p ∈ stepped, p < nfa.size := by
    intro p hp
    obtain ⟨_, _, he⟩ := (hstepped p).1 hp
    exact hnfa.edge_lt he
  refine (closure_returns hnfa hlt').mono fun closed hclosed q => ?_
  rw [hclosed q]
  constructor
  · rintro ⟨p', hp', hpath⟩
    obtain ⟨p, hp, he⟩ := (hstepped p').1 hp'
    exact ⟨p, hp, p', he, hpath⟩
  · rintro ⟨p, hp, p', he, hpath⟩
    exact ⟨p', (hstepped p').2 ⟨p, hp, he⟩, hpath⟩

/-! ## Words -/

/-- The set of all states that paths from the start lead to along the word. -/
def IsLive (nfa : Nfa) (w : List Char) (states : StateSet) : Prop :=
  ∀ q, q ∈ states ↔ Path nfa.Edge nfa.start w q

theorem IsLive.unique {states' : StateSet} (h : nfa.IsLive w states) (h' : nfa.IsLive w states') :
    states = states' :=
  Ordered.ext_mem fun q => (h q).trans (h' q).symm

theorem IsLive.lt_size (hnfa : nfa.WellFormed) (h : nfa.IsLive w states) :
    ∀ p ∈ states, p < nfa.size := by
  intro p hp
  exact Path.mem_of_mem (S := {q | q < nfa.size}) (fun _ _ _ _ he => hnfa.edge_lt he)
    hnfa.start_lt ((h p).1 hp)

theorem startSet_returns (hnfa : nfa.WellFormed) : Returns nfa.startSet (nfa.IsLive []) := by
  have hmem : ∀ p, p ∈ (Ordered.singleton nfa.start : StateSet) ↔ p = nfa.start :=
    fun p => List.mem_singleton
  have hlt : ∀ p ∈ (Ordered.singleton nfa.start : StateSet), p < nfa.size := by
    intro p hp
    rw [(hmem p).1 hp]
    exact hnfa.start_lt
  refine (closure_returns hnfa.edgesWithin hlt).mono fun closed hclosed q => ?_
  rw [hclosed q]
  simp [hmem]

theorem IsLive.advance (hnfa : nfa.WellFormed) (h : nfa.IsLive w states) (c : Char) :
    Returns (nfa.advance states c) (nfa.IsLive (w ++ [c])) := by
  refine (advance_returns hnfa.edgesWithin (h.lt_size hnfa) c).mono fun next hnext q => ?_
  rw [hnext q]
  constructor
  · rintro ⟨p, hp, p', he, hpath⟩
    exact ((h p).1 hp).trans (.symbol he hpath)
  · intro hpath
    obtain ⟨p₀, hw, hc⟩ := hpath.exists_of_append
    obtain ⟨p, p', hp, he, hq⟩ := hc.exists_edge_of_singleton
    have hpw : Path nfa.Edge nfa.start w p := by simpa using hw.trans hp
    exact ⟨p, (h p).2 hpw, p', he, hq⟩

theorem IsLive.isEmpty_iff (h : nfa.IsLive w states) :
    states.isEmpty = true ↔ ∀ q, ¬ Path nfa.Edge nfa.start w q := by
  rw [Ordered.isEmpty_iff]
  exact forall_congr' fun q => not_congr (h q)

/-- **Nothing is lost** where no state is left: no path goes on. -/
theorem IsLive.not_path_append (h : nfa.IsLive v states) (hempty : states.isEmpty = true) (w : List Char)
    (q : Nat) : ¬ Path nfa.Edge nfa.start (v ++ w) q := by
  intro hpath
  obtain ⟨p, hp, _⟩ := hpath.exists_of_append
  exact h.isEmpty_iff.1 hempty p hp

theorem IsLive.intersects_iff (h : nfa.IsLive w states) :
    states.intersects nfa.accept = true ↔ nfa.AcceptsByPath w := by
  rw [StateSet.intersects_iff]
  exact ⟨fun ⟨q, hq, hacc⟩ => ⟨q, hacc, (h q).1 hq⟩, fun ⟨q, hacc, hq⟩ => ⟨q, (h q).2 hq, hacc⟩⟩

theorem IsLive.foldlM_advance (hnfa : nfa.WellFormed) (h : nfa.IsLive v states) (w : List Char) :
    Returns (w.foldlM nfa.advance states) (nfa.IsLive (v ++ w)) := by
  induction w generalizing v states with
  | nil =>
    rw [List.append_nil]
    exact .pure h
  | cons c w ih =>
    rw [List.foldlM_cons, List.append_cons]
    exact (h.advance hnfa c).bind fun next hnext => ih hnext

/-- **Live sets.** The set after a word is that of all states that paths along it lead to. -/
theorem liveAfter_returns (hnfa : nfa.WellFormed) (w : List Char) :
    Returns (nfa.liveAfter w) (nfa.IsLive w) :=
  (startSet_returns hnfa).bind fun _ h => h.foldlM_advance hnfa w

theorem acceptsFrom_returns (hnfa : nfa.WellFormed) (h : nfa.IsLive v states) (w : List Char) :
    Returns (nfa.acceptsFrom states w) fun b => b = true ↔ nfa.AcceptsByPath (v ++ w) := by
  induction w generalizing v states with
  | nil =>
    rw [List.append_nil]
    exact .pure h.intersects_iff
  | cons c w ih =>
    refine (h.advance hnfa c).bind fun next hnext => ?_
    rw [List.append_cons]
    split
    · rename_i hempty
      refine .pure ⟨fun hb => (nomatch hb), ?_⟩
      rintro ⟨q, _, hpath⟩
      exact absurd hpath (hnext.not_path_append hempty w q)
    · exact ih hnext

theorem accepts_returns (hnfa : nfa.WellFormed) (w : List Char) :
    Returns (nfa.accepts w) fun b => b = true ↔ nfa.AcceptsByPath w :=
  (startSet_returns hnfa).bind fun _ h => acceptsFrom_returns hnfa h w

end Nfa

end FiniteAutomata
