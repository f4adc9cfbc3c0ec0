import FiniteAutomata.Proofs.Nfa.Fragment
/-!
# Edges of states under construction

What the changes to an array of states do to its edges: a new state has none (`edge_add`), `connect`
links two states (`connectAll_spec`), and a literal gets one edge with a symbol (`literal_spec`). In
between, no symbol is kept without a target (`Proper`).
-/

namespace FiniteAutomata

namespace NfaState

variable {s : NfaState} {l : Label} {c : Char} {target q : Nat}

theorem not_leads_empty : ¬ empty.Leads l q := by
  cases l with
  | symbol c =>
    rintro ⟨targets, h, _⟩
    cases h
  | epsilon => exact List.not_mem_nil

theorem leads_addEpsilon :
    (s.addEpsilon target).Leads l q ↔ s.Leads l q ∨ (l = .epsilon ∧ q = target) := by
  cases l with
  | symbol c => simp [Leads, addEpsilon, targets?]
  | epsilon => simp [Leads, addEpsilon, StateSet.mem_insert, or_comm]

theorem targets?_addSymbol {d : Char} :
    (s.addSymbol c target).targets? d =
      if d = c then some (((s.targets? c).getD Ordered.empty).insert target) else s.targets? d :=
  SymbolMap.get?_put

theorem leads_addSymbol :
    (s.addSymbol c target).Leads l q ↔ s.Leads l q ∨ (l = .symbol c ∧ q = target) := by
  cases l with
  | symbol d =>
    unfold Leads
    simp only [targets?_addSymbol, Label.symbol.injEq]
    by_cases hd : d = c
    · subst hd
      have hnone : q ∉ (Ordered.empty : StateSet) := List.not_mem_nil
      cases h : s.targets? d <;> simp [StateSet.mem_insert, hnone, or_comm]
    · simp [hd]
  | epsilon => simp [Leads, addSymbol]

end NfaState

namespace Nfa.States

/-- There is an edge from `p` to `q` with label `l`. -/
def Edge (states : States) : EdgeRelation := fun p l q =>
  ∃ s, states[p]? = some s ∧ s.Leads l q

/-- Every symbol of a state leads somewhere. -/
def Proper (states : States) : Prop :=
  ∀ s ∈ states, ∀ c targets, s.targets? c = some targets → ∃ q, q ∈ targets

variable {states : States} {p q : Nat} {l : Label}

theorem lt_size_of_edge (h : states.Edge p l q) : p < states.size := by
  obtain ⟨s, hs, _⟩ := h
  exact (Array.getElem?_eq_some_iff.1 hs).1

theorem not_edge_of_size_le (h : states.size ≤ p) (l : Label) (q : Nat) : ¬ states.Edge p l q :=
  fun he => absurd (lt_size_of_edge he) (Nat.not_lt.2 h)

/-! ## A new state -/

@[simp] theorem size_add (states : States) : states.add.1.size = states.size + 1 :=
  Array.size_push _

@[simp] theorem number_add (states : States) : states.add.2 = states.size := rfl

theorem edge_add (states : States) : states.add.1.Edge = states.Edge := by
  funext p l q
  refine propext ⟨?_, ?_⟩
  · rintro ⟨s, hs, hl⟩
    rw [show states.add.1 = states.push .empty from rfl, Array.getElem?_push] at hs
    split at hs
    · cases hs
      exact absurd hl NfaState.not_leads_empty
    · exact ⟨s, hs, hl⟩
  · rintro ⟨s, hs, hl⟩
    refine ⟨s, ?_, hl⟩
    have hp := (Array.getElem?_eq_some_iff.1 hs).1
    rw [show states.add.1 = states.push .empty from rfl, Array.getElem?_push, if_neg (by omega), hs]

theorem size_add_add (states : States) : states.add.1.add.1.size = states.size + 2 := by
  rw [size_add, size_add]

theorem edge_add_add (states : States) : states.add.1.add.1.Edge = states.Edge :=
  (edge_add _).trans (edge_add states)

theorem Proper.add (h : states.Proper) : states.add.1.Proper := by
  intro s hs c targets hc
  rcases Array.mem_push.1 hs with hs | rfl
  · exact h s hs c targets hc
  · cases hc

/-! ## A changed state -/

theorem update_of_lt {id : Nat} (h : id < states.size) (f : NfaState → NfaState) :
    states.update id f = .ok (states.set id (f states[id])) := by
  unfold update
  rw [dif_pos h]

/-- What a change of one state does to the edges, told by what it does to those of that state. -/
theorem edge_set {id : Nat} (h : id < states.size) {s : NfaState} {P : Label → Nat → Prop}
    (hs : ∀ l q, s.Leads l q ↔ states[id].Leads l q ∨ P l q) :
    Edge (states.set id s) p l q ↔ states.Edge p l q ∨ (p = id ∧ P l q) := by
  unfold Edge
  by_cases hp : id = p
  · subst hp
    simp only [Array.getElem?_set_self h, Array.getElem?_eq_getElem h, Option.some.injEq,
      exists_eq_left', hs, true_and]
  · have hp' : ¬ p = id := fun e => hp e.symm
    simp [Array.getElem?_set_ne h hp, hp']

theorem Proper.set {id : Nat} (h : states.Proper) (hid : id < states.size) {s : NfaState}
    (hs : ∀ c targets, s.targets? c = some targets → ∃ q, q ∈ targets) :
    Proper (states.set id s) := by
  intro t ht
  rcases Array.mem_or_eq_of_mem_set ht with ht | rfl
  · exact h t ht
  · exact hs

theorem connect_spec {source : Nat} (target : Nat) (hsource : source < states.size) :
    ∃ states', states.connect source target = .ok states' ∧ states'.size = states.size ∧
      states'.Edge = link states.Edge [(source, target)] ∧ (states.Proper → states'.Proper) := by
  refine ⟨_, update_of_lt hsource _, Array.size_set _, ?_, fun h => ?_⟩
  · funext p l q
    refine propext ((edge_set hsource (P := fun l q => l = .epsilon ∧ q = target) ?_).trans ?_)
    · exact fun l q => NfaState.leads_addEpsilon
    · simp only [link, List.mem_singleton, Prod.mk.injEq]
      tauto
  · exact h.set hsource (h states[source] (Array.getElem_mem hsource))

/-- Link several states, one pair after the other. -/
def connectAll (states : States) (pairs : List (Nat × Nat)) : Checked States :=
  pairs.foldlM (fun states pair => states.connect pair.1 pair.2) states

theorem connectAll_spec {pairs : List (Nat × Nat)} (h : ∀ pair ∈ pairs, pair.1 < states.size) :
    ∃ states', states.connectAll pairs = .ok states' ∧ states'.size = states.size ∧
      states'.Edge = link states.Edge pairs ∧ (states.Proper → states'.Proper) := by
  induction pairs generalizing states with
  | nil =>
    refine ⟨states, rfl, rfl, ?_, id⟩
    funext p l q
    simp [link]
  | cons pair pairs ih =>
    obtain ⟨s₁, h₁, hsize₁, hedge₁, hproper₁⟩ := connect_spec pair.2
      (h pair List.mem_cons_self)
    obtain ⟨s₂, h₂, hsize₂, hedge₂, hproper₂⟩ := @ih s₁ fun e he => by
      rw [hsize₁]
      exact h e (List.mem_cons_of_mem pair he)
    refine ⟨s₂, ?_, hsize₂.trans hsize₁, ?_, hproper₂ ∘ hproper₁⟩
    · unfold connectAll at *
      rw [List.foldlM_cons, h₁]
      exact h₂
    · rw [hedge₂, hedge₁, link_link]
      rfl

/-! ## A literal -/

theorem literal_spec (states : States) (c : Char) :
    ∃ states', states.literal c = .ok (states', ⟨states.size, states.size + 1⟩) ∧
      states'.size = states.size + 2 ∧
      (∀ p l q, states'.Edge p l q ↔
        states.Edge p l q ∨ (p = states.size ∧ l = .symbol c ∧ q = states.size + 1)) ∧
      (states.Proper → states'.Proper) := by
  let two := states.add.1.add.1
  have hsize : two.size = states.size + 2 := size_add_add states
  have hlt : states.size < two.size := by omega
  have hedge : two.Edge = states.Edge := edge_add_add states
  refine ⟨two.set states.size (two[states.size].addSymbol c (states.size + 1)), ?_,
    (Array.size_set _).trans hsize, ?_, ?_⟩
  · show (do
      let states' ← two.update states.size (·.addSymbol c states.add.1.size)
      return (states', (⟨states.size, states.add.1.size⟩ : Fragment)) : Checked _) = _
    rw [update_of_lt hlt, size_add]
    rfl
  · intro p l q
    rw [← hedge]
    exact edge_set hlt fun l q => NfaState.leads_addSymbol
  · intro h
    refine (h.add.add).set hlt fun d targets hd => ?_
    rw [NfaState.targets?_addSymbol] at hd
    split at hd
    · cases hd
      exact ⟨states.size + 1, StateSet.mem_insert.2 (Or.inl rfl)⟩
    · exact h.add.add _ (Array.getElem_mem hlt) d targets hd

end Nfa.States

end FiniteAutomata
