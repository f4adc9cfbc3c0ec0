import Mathlib.Data.Finset.Powerset
import FiniteAutomata.Dfa.Subsets
import FiniteAutomata.Proofs.Dfa.Run
import FiniteAutomata.Proofs.Nfa.Closure
/-!
# The search for reachable subsets

`Growing nfa done dfa` is what the search keeps to: the states found so far stand for different live
sets, the edges are those of the pairs of state and symbol that are `done`, and states are found in
the order of these pairs. One more pair keeps this up (`Growing.link`), so does a state with all its
symbols (`Growing.expand_returns`), and the search ends before its bound since there are only so many sets
(`Growing.size_lt`).
-/

namespace FiniteAutomata.Dfa

variable {nfa : Nfa} {dfa dfa' : Dfa} {p q t id : Nat} {c d : Char} {S T : StateSet}

/-- The state stands for the set, and accepts accordingly. -/
def Stands (nfa : Nfa) (dfa : Dfa) (q : Nat) (S : StateSet) : Prop :=
  ∃ s, dfa.states[q]? = some s ∧ s.subset = S ∧ s.isAccept = S.intersects nfa.accept

theorem Stands.lt_size (h : dfa.Stands nfa q S) : q < dfa.size := by
  obtain ⟨s, hs, _⟩ := h
  exact (Array.getElem?_eq_some_iff.1 hs).1

theorem Stands.unique (h : dfa.Stands nfa q S) (h' : dfa.Stands nfa q T) : S = T := by
  obtain ⟨s, hs, rfl, _⟩ := h
  obtain ⟨s', hs', rfl, _⟩ := h'
  rw [hs] at hs'
  rw [Option.some.inj hs']

theorem Stands.isAccept_eq (h : dfa.Stands nfa q S) : dfa.isAccept q = S.intersects nfa.accept := by
  obtain ⟨s, hs, _, haccept⟩ := h
  unfold isAccept
  rw [hs]
  exact haccept

/-! ## What the steps of the search change -/

theorem push_spec (nfa : Nfa) (dfa : Dfa) (T : StateSet) :
    let dfa' : Dfa := { dfa with
      states := dfa.states.push ⟨T, Ordered.empty, T.intersects nfa.accept⟩ }
    dfa'.size = dfa.size + 1 ∧ (∀ p c q, dfa'.Edge p c q ↔ dfa.Edge p c q) ∧
      ∀ q S, dfa'.Stands nfa q S ↔ dfa.Stands nfa q S ∨ (q = dfa.size ∧ S = T) := by
  intro dfa'
  have hget : ∀ q, dfa'.states[q]? =
      if q = dfa.size then some ⟨T, Ordered.empty, T.intersects nfa.accept⟩ else dfa.states[q]? :=
    fun q => Array.getElem?_push
  have hnone : dfa.states[dfa.size]? = none := Array.getElem?_size
  refine ⟨Array.size_push _, fun p c q => ?_, fun q S => ?_⟩
  · unfold Edge
    rw [hget]
    split
    · rename_i hp
      subst hp
      rw [hnone]
      constructor
      · rintro ⟨s, hs, he⟩
        cases hs
        cases he
      · rintro ⟨s, hs, _⟩
        cases hs
    · rfl
  · unfold Stands
    rw [hget]
    by_cases hq : q = dfa.size
    · subst hq
      rw [if_pos rfl, hnone]
      constructor
      · rintro ⟨s, hs, rfl, _⟩
        cases hs
        exact Or.inr ⟨rfl, rfl⟩
      · rintro (⟨s, hs, _⟩ | ⟨_, rfl⟩)
        · cases hs
        · exact ⟨_, rfl, rfl, rfl⟩
    · rw [if_neg hq]
      simp [hq]

theorem addEdge_returns (nfa : Nfa) (hp : p < dfa.states.size) (hfree : ∀ q, ¬ dfa.Edge p c q) (t : Nat) :
    Returns (dfa.addEdge p c t) fun dfa' =>
      dfa'.size = dfa.size ∧ dfa'.start = dfa.start ∧ dfa'.alphabet = dfa.alphabet ∧
      (∀ p' d q, dfa'.Edge p' d q ↔ dfa.Edge p' d q ∨ (p' = p ∧ d = c ∧ q = t)) ∧
      ∀ q S, dfa'.Stands nfa q S ↔ dfa.Stands nfa q S := by
  have hget : dfa.states[p]? = some dfa.states[p] := Array.getElem?_eq_getElem hp
  have hnone : dfa.states[p].edges.get? c = none :=
    Option.eq_none_iff_forall_ne_some.2 fun q hq => hfree q ⟨_, hget, hq⟩
  have htarget : (dfa.states[p].edges.get? c).getD t = t := by
    rw [hnone]
    rfl
  unfold addEdge
  rw [dif_pos hp]
  dsimp only
  rw [if_pos htarget]
  refine .pure ⟨Array.size_set hp, rfl, rfl, fun p' d q => ?_, fun q S => ?_⟩
  · unfold Edge
    by_cases hp' : p = p'
    · subst hp'
      simp only [Array.getElem?_set_self hp, hget, Option.some.injEq, exists_eq_left', SymbolMap.get?_put,
        true_and]
      by_cases hd : d = c
      · subst hd
        simp [hnone, eq_comm]
      · simp [hd]
    · simp [Array.getElem?_set_ne hp hp', Ne.symm hp']
  · unfold Stands
    by_cases hq : p = q
    · subst hq
      simp only [Array.getElem?_set_self hp, hget, Option.some.injEq, exists_eq_left']
    · simp [Array.getElem?_set_ne hp hq]

theorem subset_of_find?_eq_some (h : dfa.find? T = some t) :
    ∃ s, dfa.states[t]? = some s ∧ s.subset = T := by
  unfold find? at h
  obtain ⟨ht, hT, _⟩ := Array.findIdx?_eq_some_iff_getElem.1 h
  exact ⟨_, Array.getElem?_eq_getElem ht, of_decide_eq_true hT⟩

theorem stands_of_find?_eq_some (hstands : ∀ q < dfa.size, ∃ S, dfa.Stands nfa q S)
    (h : dfa.find? T = some t) : dfa.Stands nfa t T := by
  obtain ⟨s, hs, rfl⟩ := subset_of_find?_eq_some h
  obtain ⟨S, s', hs', rfl, haccept⟩ := hstands t (Array.getElem?_eq_some_iff.1 hs).1
  obtain rfl : s = s' := Option.some.inj (hs.symm.trans hs')
  exact ⟨s, hs, rfl, haccept⟩

theorem not_stands_of_find?_eq_none (h : dfa.find? T = none) : ¬ dfa.Stands nfa q T := by
  rintro ⟨s, hs, hT, _⟩
  unfold find? at h
  have := Array.findIdx?_eq_none_iff.1 h s (Array.mem_of_getElem? hs)
  exact of_decide_eq_false this hT

/-- The state for a set, whether it was there or not. -/
theorem discover_spec (hstands : ∀ q < dfa.size, ∃ S, dfa.Stands nfa q S)
    (hdistinct : ∀ p q S, dfa.Stands nfa p S → dfa.Stands nfa q S → p = q) (T : StateSet) :
    ∃ dfa' t, discover nfa dfa T = (dfa', t) ∧ dfa'.start = dfa.start ∧
      dfa'.alphabet = dfa.alphabet ∧
      ((t < dfa.size ∧ dfa'.size = dfa.size) ∨ (t = dfa.size ∧ dfa'.size = dfa.size + 1)) ∧
      (∀ p c q, dfa'.Edge p c q ↔ dfa.Edge p c q) ∧
      (∀ q S, dfa'.Stands nfa q S ↔ dfa.Stands nfa q S ∨ (q = t ∧ S = T)) ∧
      ∀ q, dfa.Stands nfa q T → q = t := by
  unfold discover
  cases hfind : dfa.find? T with
  | some t =>
    have hstandsT := stands_of_find?_eq_some hstands hfind
    refine ⟨dfa, t, rfl, rfl, rfl, Or.inl ⟨hstandsT.lt_size, rfl⟩, fun _ _ _ => Iff.rfl,
      fun q S => ?_, fun q hq => hdistinct q t T hq hstandsT⟩
    refine ⟨Or.inl, ?_⟩
    rintro (h | ⟨rfl, rfl⟩)
    · exact h
    · exact hstandsT
  | none =>
    obtain ⟨hsize, hedge, hstands'⟩ := push_spec nfa dfa T
    exact ⟨_, dfa.size, rfl, rfl, rfl, Or.inr ⟨rfl, hsize⟩, hedge, hstands',
      fun q hq => absurd hq (not_stands_of_find?_eq_none hfind)⟩

/-- The state `id` has a new edge with `c` to the state `t`, which stands for `T` and is either an old
state or a new one behind all others. -/
structure Linked (nfa : Nfa) (dfa dfa' : Dfa) (id : Nat) (c : Char) (t : Nat) (T : StateSet) : Prop where
  start_eq : dfa'.start = dfa.start
  alphabet_eq : dfa'.alphabet = dfa.alphabet
  size_eq : (t < dfa.size ∧ dfa'.size = dfa.size) ∨ (t = dfa.size ∧ dfa'.size = dfa.size + 1)
  edge_iff : ∀ p d q, dfa'.Edge p d q ↔ dfa.Edge p d q ∨ (p = id ∧ d = c ∧ q = t)
  stands_iff : ∀ q S, dfa'.Stands nfa q S ↔ dfa.Stands nfa q S ∨ (q = t ∧ S = T)
  /-- No other state stood for the set. -/
  only : ∀ q, dfa.Stands nfa q T → q = t

namespace Linked

theorem edge (h : Linked nfa dfa dfa' id c t T) : dfa'.Edge id c t :=
  (h.edge_iff id c t).2 (Or.inr ⟨rfl, rfl, rfl⟩)

theorem edge_of_edge (h : Linked nfa dfa dfa' id c t T) (he : dfa.Edge p d q) : dfa'.Edge p d q :=
  (h.edge_iff p d q).2 (Or.inl he)

theorem stands (h : Linked nfa dfa dfa' id c t T) : dfa'.Stands nfa t T :=
  (h.stands_iff t T).2 (Or.inr ⟨rfl, rfl⟩)

theorem stands_of_stands (h : Linked nfa dfa dfa' id c t T) (hS : dfa.Stands nfa q S) :
    dfa'.Stands nfa q S :=
  (h.stands_iff q S).2 (Or.inl hS)

theorem stands_before (h : Linked nfa dfa dfa' id c t T)
    (hstands : ∀ q < dfa.size, ∃ S, dfa.Stands nfa q S) (hq : q < dfa.size)
    (hS : dfa'.Stands nfa q S) : dfa.Stands nfa q S := by
  obtain ⟨S', hS'⟩ := hstands q hq
  rwa [hS.unique (h.stands_of_stands hS')]

theorem distinct (h : Linked nfa dfa dfa' id c t T)
    (hdistinct : ∀ p q S, dfa.Stands nfa p S → dfa.Stands nfa q S → p = q)
    (hp : dfa'.Stands nfa p S) (hq : dfa'.Stands nfa q S) : p = q := by
  rcases (h.stands_iff p S).1 hp with hp | ⟨rfl, rfl⟩ <;>
    rcases (h.stands_iff q S).1 hq with hq | ⟨rfl, hS⟩
  · exact hdistinct p q S hp hq
  · exact h.only p (hS ▸ hp)
  · exact (h.only q hq).symm
  · rfl

end Linked

/-! ## What the search keeps to -/

/-- Pairs of a state and a symbol, in the order in which the search goes through them. -/
def NotAfter (p : Nat) (c : Char) (q : Nat) (d : Char) : Prop := p < q ∨ (p = q ∧ c.toNat ≤ d.toNat)

/-- The states found stand for different live sets, and the edges are those of the pairs done. -/
structure Growing (nfa : Nfa) (done : Nat → Char → Prop) (dfa : Dfa) : Prop where
  start_eq : dfa.start = 0
  alphabet_eq : dfa.alphabet = nfa.alphabet
  stands : ∀ q < dfa.size, ∃ S, dfa.Stands nfa q S
  initial : ∃ S, dfa.Stands nfa 0 S ∧ nfa.IsLive [] S
  live : ∀ q S, dfa.Stands nfa q S → S.isEmpty = false ∧ ∃ w, nfa.IsLive w S
  distinct : ∀ p q S, dfa.Stands nfa p S → dfa.Stands nfa q S → p = q
  edge : ∀ (p : Nat) (c : Char) (q : Nat), dfa.Edge p c q → done p c ∧
    ∃ S T, dfa.Stands nfa p S ∧ dfa.Stands nfa q T ∧ nfa.advance S c = .ok T
  complete : ∀ p c S T, done p c → dfa.Stands nfa p S → nfa.advance S c = .ok T → T.isEmpty = false →
    ∃ q, dfa.Edge p c q
  /-- States are found from those before them. -/
  found : ∀ q, 0 < q → q < dfa.size → ∃ p c, p < q ∧ dfa.Edge p c q
  /-- No state is found before a state of a lower number. -/
  first : ∀ (p : Nat) (c : Char) (q : Nat), dfa.Edge p c q → ∀ q' : Nat, 0 < q' → q' ≤ q →
    ∃ p' c', NotAfter p' c' p c ∧ dfa.Edge p' c' q'

namespace Growing

variable {done done' : Nat → Char → Prop}

theorem edge_lt (h : Growing nfa done dfa) (he : dfa.Edge p c q) : p < dfa.size ∧ q < dfa.size := by
  obtain ⟨_, S, T, hS, hT, _⟩ := h.edge p c q he
  exact ⟨hS.lt_size, hT.lt_size⟩

theorem congr (h : Growing nfa done dfa) (hdone : ∀ p c, p < dfa.size → (done p c ↔ done' p c)) :
    Growing nfa done' dfa := by
  refine { h with edge := fun p c q he => ?_, complete := fun p c S T hd hS => ?_ }
  · obtain ⟨hd, hrest⟩ := h.edge p c q he
    exact ⟨(hdone p c (h.edge_lt he).1).1 hd, hrest⟩
  · exact h.complete p c S T ((hdone p c hS.lt_size).2 hd) hS

theorem skip (h : Growing nfa done dfa) (hdone : ∀ p d, done' p d ↔ done p d ∨ (p = id ∧ d = c))
    (hS : dfa.Stands nfa id S) (hnext : nfa.advance S c = .ok T) (hempty : T.isEmpty = true) :
    Growing nfa done' dfa := by
  refine { h with edge := fun p d q he => ?_, complete := fun p d S' T' hd hS' hnext' hne => ?_ }
  · obtain ⟨hd, hrest⟩ := h.edge p d q he
    exact ⟨(hdone p d).2 (Or.inl hd), hrest⟩
  · rcases (hdone p d).1 hd with hd | ⟨rfl, rfl⟩
    · exact h.complete p d S' T' hd hS' hnext' hne
    · obtain rfl := hS.unique hS'
      rw [hnext] at hnext'
      obtain rfl := Except.ok.inj hnext'
      rw [hempty] at hne
      cases hne

/-- States are found in the order of the pairs as before. -/
theorem link_first (h : Growing nfa done dfa) (horder : ∀ p d, done p d → NotAfter p d id c)
    (hlinked : Linked nfa dfa dfa' id c t T) (he : dfa'.Edge p d q) {q' : Nat} (hpos : 0 < q')
    (hle : q' ≤ q) : ∃ p' d', NotAfter p' d' p d ∧ dfa'.Edge p' d' q' := by
  rcases (hlinked.edge_iff p d q).1 he with he | ⟨rfl, rfl, rfl⟩
  · obtain ⟨p', d', hbefore, he'⟩ := h.first p d q he q' hpos hle
    exact ⟨p', d', hbefore, hlinked.edge_of_edge he'⟩
  · have hsize := hlinked.size_eq
    by_cases hlt : q' < dfa.size
    · -- what was found before was found by a pair done before
      obtain ⟨p', d', _, he'⟩ := h.found q' hpos hlt
      exact ⟨p', d', horder p' d' (h.edge p' d' q' he').1, hlinked.edge_of_edge he'⟩
    · obtain rfl : q' = q := by omega
      exact ⟨p, d, Or.inr ⟨rfl, Nat.le_refl _⟩, hlinked.edge⟩

/-- **One step.** A pair that leads to the set `T` gets an edge to the state for it. -/
theorem link (h : Growing nfa done dfa) (hnfa : nfa.WellFormed)
    (hdone : ∀ p d, done' p d ↔ done p d ∨ (p = id ∧ d = c))
    (horder : ∀ p d, done p d → NotAfter p d id c)
    (hS : dfa.Stands nfa id S) (hnext : nfa.advance S c = .ok T) (hne : T.isEmpty = false)
    (hlinked : Linked nfa dfa dfa' id c t T) : Growing nfa done' dfa' := by
  have hid := hS.lt_size
  have hsize := hlinked.size_eq
  constructor
  case start_eq => rw [hlinked.start_eq, h.start_eq]
  case alphabet_eq => rw [hlinked.alphabet_eq, h.alphabet_eq]
  case stands =>
    intro q hq
    by_cases hqt : q = t
    · exact ⟨T, hqt ▸ hlinked.stands⟩
    · obtain ⟨S', hS'⟩ := h.stands q (by omega)
      exact ⟨S', hlinked.stands_of_stands hS'⟩
  case initial =>
    obtain ⟨S₀, hS₀, hlive⟩ := h.initial
    exact ⟨S₀, hlinked.stands_of_stands hS₀, hlive⟩
  case live =>
    intro q S' hS'
    rcases (hlinked.stands_iff q S').1 hS' with hS' | ⟨_, rfl⟩
    · exact h.live q S' hS'
    · obtain ⟨_, w, hw⟩ := h.live id S hS
      exact ⟨hne, w ++ [c], (hw.advance hnfa c).of_eq_ok hnext⟩
  case distinct => exact fun p q S' hp hq => hlinked.distinct h.distinct hp hq
  case edge =>
    intro p d q he
    rcases (hlinked.edge_iff p d q).1 he with he | ⟨rfl, rfl, rfl⟩
    · obtain ⟨hd, S', T', hS', hT', hstep⟩ := h.edge p d q he
      exact ⟨(hdone p d).2 (Or.inl hd), S', T', hlinked.stands_of_stands hS',
        hlinked.stands_of_stands hT', hstep⟩
    · exact ⟨(hdone _ _).2 (Or.inr ⟨rfl, rfl⟩), S, T, hlinked.stands_of_stands hS, hlinked.stands, hnext⟩
  case complete =>
    intro p d S' T' hd hS' hnext' hne'
    rcases (hdone p d).1 hd with hd | ⟨rfl, rfl⟩
    · have hp : p < dfa.size := by
        rcases horder p d hd with hlt | ⟨rfl, _⟩
        · omega
        · exact hid
      obtain ⟨q, he⟩ := h.complete p d S' T' hd (hlinked.stands_before h.stands hp hS') hnext' hne'
      exact ⟨q, hlinked.edge_of_edge he⟩
    · exact ⟨t, hlinked.edge⟩
  case found =>
    intro q hpos hq
    by_cases hlt : q < dfa.size
    · obtain ⟨p, d, hp, he⟩ := h.found q hpos hlt
      exact ⟨p, d, hp, hlinked.edge_of_edge he⟩
    · obtain rfl : q = t := by omega
      exact ⟨id, c, by omega, hlinked.edge⟩
  case first => exact fun p d q he q' hpos hle => h.link_first horder hlinked he hpos hle

/-! ## One symbol, one state, all states -/

theorem expandSymbol_returns (h : Growing nfa done dfa) (hnfa : nfa.WellFormed)
    (hdone : ∀ p d, done' p d ↔ done p d ∨ (p = id ∧ d = c))
    (horder : ∀ p d, done p d → NotAfter p d id c) (hfree : ¬ done id c) (hS : dfa.Stands nfa id S) :
    Returns (expandSymbol nfa id S dfa c) fun dfa' =>
      Growing nfa done' dfa' ∧ dfa'.Stands nfa id S := by
  obtain ⟨_, w, hw⟩ := h.live id S hS
  obtain ⟨T, hnext, _⟩ := hw.advance hnfa c
  unfold expandSymbol
  rw [hnext]
  show Returns (if T.isEmpty = true then pure dfa else
    (discover nfa dfa T).1.addEdge id c (discover nfa dfa T).2) _
  by_cases hempty : T.isEmpty = true
  · rw [if_pos hempty]
    exact .pure ⟨h.skip hdone hS hnext hempty, hS⟩
  rw [if_neg hempty]
  have hne : T.isEmpty = false := by simpa using hempty
  have hfree' : ∀ q, ¬ dfa.Edge id c q := fun q he => hfree (h.edge id c q he).1
  obtain ⟨dfa₁, t, hdiscover, hstart, halphabet, hsize, hedge, hstands, hnew⟩ :=
    discover_spec h.stands h.distinct T
  rw [hdiscover]
  have hS₁ : dfa₁.Stands nfa id S := (hstands id S).2 (Or.inl hS)
  refine (addEdge_returns nfa hS₁.lt_size ?_ t).mono ?_
  · exact fun q he => hfree' q ((hedge _ _ _).1 he)
  · rintro dfa' ⟨hsize', hstart', halphabet', hedge', hstands'⟩
    have hlinked : Linked nfa dfa dfa' id c t T := by
      refine ⟨hstart'.trans hstart, halphabet'.trans halphabet, hsize' ▸ hsize, ?_, ?_, hnew⟩
      · intro p d q
        rw [hedge', hedge]
      · intro q S'
        rw [hstands', hstands]
    exact ⟨h.link hnfa hdone horder hS hnext hne hlinked, (hstands' id S).2 hS₁⟩

/-- The pairs done when the symbols of `rest` are still to come for the state `id`. -/
def Before (alphabet : Alphabet) (id : Nat) (rest : List Char) (p : Nat) (c : Char) : Prop :=
  c ∈ alphabet ∧ (p < id ∨ (p = id ∧ c ∉ rest))

section Before

variable {alphabet : Alphabet} {passed rest : List Char}

theorem not_mem_of_split (hsplit : alphabet.toList = passed ++ c :: rest) : c ∉ rest := by
  intro hmem
  have hascending := alphabet.ascending
  rw [hsplit] at hascending
  have hlt := List.rel_of_pairwise_cons (List.pairwise_append.1 hascending).2.1 hmem
  exact absurd hlt (Nat.lt_irrefl _)

theorem before_cons (hsplit : alphabet.toList = passed ++ c :: rest) :
    Before alphabet id rest p d ↔ Before alphabet id (c :: rest) p d ∨ (p = id ∧ d = c) := by
  have hc : c ∈ alphabet := by
    rw [← Ordered.mem_toList, hsplit]
    simp
  have hrest := not_mem_of_split hsplit
  unfold Before
  rw [List.mem_cons]
  by_cases hd : d = c
  · subst hd
    simp [hc, hrest]
  · simp [hd]

/-- Symbols ascend, so what was done comes before the pair at hand. -/
theorem Before.notAfter (h : Before alphabet id (c :: rest) p d)
    (hsplit : alphabet.toList = passed ++ c :: rest) : NotAfter p d id c := by
  obtain ⟨hd, hlt | ⟨rfl, hnot⟩⟩ := h
  · exact Or.inl hlt
  · rw [← Ordered.mem_toList, hsplit] at hd
    have hpassed := (List.mem_append.1 hd).resolve_right hnot
    have hascending := alphabet.ascending
    rw [hsplit] at hascending
    have hlt := (List.pairwise_append.1 hascending).2.2 d hpassed c List.mem_cons_self
    exact Or.inr ⟨rfl, Nat.le_of_lt hlt⟩

theorem before_nil : Before alphabet id [] p c ↔ Before alphabet (id + 1) alphabet.toList p c := by
  unfold Before
  constructor
  · rintro ⟨hc, hlt | ⟨rfl, _⟩⟩
    · exact ⟨hc, Or.inl (Nat.lt_succ_of_lt hlt)⟩
    · exact ⟨hc, Or.inl (Nat.lt_succ_self p)⟩
  · rintro ⟨hc, hlt | ⟨_, hnot⟩⟩
    · refine ⟨hc, ?_⟩
      simp only [List.not_mem_nil, not_false_eq_true, and_true]
      omega
    · exact absurd hc hnot

end Before

theorem expand_returns (h : Growing nfa (Before nfa.alphabet id nfa.alphabet.toList) dfa)
    (hnfa : nfa.WellFormed) (hid : id < dfa.size) :
    Returns (dfa.expand nfa id) (Growing nfa (Before nfa.alphabet (id + 1) nfa.alphabet.toList)) := by
  obtain ⟨S, hS⟩ := h.stands id hid
  have hstate : ∃ s, dfa.state id = .ok s ∧ s.subset = S := by
    obtain ⟨s, hs, hsubset, _⟩ := hS
    refine ⟨s, ?_, hsubset⟩
    unfold state
    rw [hs]
  obtain ⟨s, hs, hsubset⟩ := hstate
  unfold expand
  rw [hs, h.alphabet_eq]
  show Returns (nfa.alphabet.toList.foldlM (expandSymbol nfa id s.subset) dfa) _
  rw [hsubset]
  refine (Returns.foldlM (I := fun rest dfa => (∃ passed, nfa.alphabet.toList = passed ++ rest) ∧
    Growing nfa (Before nfa.alphabet id rest) dfa ∧ dfa.Stands nfa id S) ?_ ⟨⟨[], rfl⟩, h, hS⟩).mono ?_
  · rintro c rest dfa ⟨⟨passed, hsplit⟩, hgrowing, hS⟩
    have hfree : ¬ Before nfa.alphabet id (c :: rest) id c := by
      rintro ⟨_, hlt | ⟨_, hnot⟩⟩
      · exact absurd hlt (Nat.lt_irrefl id)
      · exact hnot List.mem_cons_self
    refine (hgrowing.expandSymbol_returns hnfa (fun _ _ => before_cons hsplit)
      (fun _ _ hdone => hdone.notAfter hsplit) hfree hS).mono ?_
    rintro dfa' ⟨hgrowing', hS'⟩
    refine ⟨⟨passed ++ [c], ?_⟩, hgrowing', hS'⟩
    rw [hsplit, List.append_assoc]
    rfl
  · rintro dfa' ⟨_, hgrowing', _⟩
    exact hgrowing'.congr fun _ _ _ => before_nil

/-- There are fewer states than sets of states of the other automaton, since none is empty. -/
theorem size_lt (h : Growing nfa done dfa) (hnfa : nfa.WellFormed) : dfa.size < 2 ^ nfa.size := by
  choose! sets hsets using h.stands
  have hmem : ∀ {q}, q < dfa.size → ∀ p, p ∈ (sets q).toList.toFinset ↔ p ∈ sets q :=
    fun _ _ => List.mem_toFinset
  have hmaps : ∀ q ∈ Finset.range dfa.size,
      (sets q).toList.toFinset ∈ (Finset.range nfa.size).powerset.erase ∅ := by
    intro q hq
    have hq := Finset.mem_range.1 hq
    obtain ⟨hne, w, hw⟩ := h.live q _ (hsets q hq)
    rw [Finset.mem_erase, Finset.mem_powerset]
    refine ⟨?_, fun p hp => ?_⟩
    · obtain ⟨p, hp⟩ := List.exists_mem_of_ne_nil _ (List.isEmpty_eq_false_iff.1 hne)
      exact Finset.ne_empty_of_mem ((hmem hq p).2 hp)
    · exact Finset.mem_range.2 (hw.lt_size hnfa p ((hmem hq p).1 hp))
  have hinj : Set.InjOn (fun q => (sets q).toList.toFinset) (Finset.range dfa.size) := by
    intro p hp q hq heq
    have hp := Finset.mem_range.1 hp
    have hq := Finset.mem_range.1 hq
    have hsame : sets p = sets q := Ordered.ext_mem fun x => by
      rw [← hmem hp, ← hmem hq]
      exact Finset.ext_iff.1 heq x
    exact h.distinct p q _ (hsets p hp) (hsame ▸ hsets q hq)
  have hcard := Finset.card_le_card_of_injOn _ hmaps hinj
  rw [Finset.card_range, Finset.card_erase_of_mem (Finset.empty_mem_powerset _),
    Finset.card_powerset, Finset.card_range] at hcard
  have hpos : 0 < 2 ^ nfa.size := Nat.two_pow_pos nfa.size
  omega

theorem all_done (h : Growing nfa (Before nfa.alphabet id nfa.alphabet.toList) dfa)
    (hid : dfa.size ≤ id) : Growing nfa (fun _ c => c ∈ nfa.alphabet) dfa :=
  h.congr fun _ _ hp => ⟨fun hb => hb.1, fun hc => ⟨hc, Or.inl (Nat.lt_of_lt_of_le hp hid)⟩⟩

theorem expandAll_returns {bound : Nat} (hnfa : nfa.WellFormed)
    (h : Growing nfa (Before nfa.alphabet id nfa.alphabet.toList) dfa)
    (hbound : 2 ^ nfa.size ≤ bound + id) :
    Returns (expandAll nfa bound dfa id) (Growing nfa fun _ c => c ∈ nfa.alphabet) := by
  induction bound generalizing dfa id with
  | zero =>
    have hsize := h.size_lt hnfa
    unfold expandAll
    rw [if_neg (show ¬ id < dfa.size by omega)]
    exact .pure (h.all_done (by omega))
  | succ bound ih =>
    unfold expandAll
    split
    · rename_i hid
      exact (h.expand_returns hnfa hid).bind fun dfa' h' => ih h' (by omega)
    · rename_i hid
      exact .pure (h.all_done (Nat.not_lt.1 hid))

theorem of_start {start : StateSet} (hstart : nfa.IsLive [] start) :
    ∃ dfa', discover nfa ⟨#[], 0, nfa.alphabet⟩ start = (dfa', 0) ∧
      Growing nfa (Before nfa.alphabet 0 nfa.alphabet.toList) { dfa' with start := 0 } := by
  have hnone : ∀ {q S}, ¬ Stands nfa ⟨#[], 0, nfa.alphabet⟩ q S :=
    fun h => absurd h.lt_size (Nat.not_lt_zero _)
  obtain ⟨dfa', t, hdiscover, _, halphabet, hsize, hedge, hstands, _⟩ :=
    @discover_spec nfa ⟨#[], 0, nfa.alphabet⟩
      (fun q hq => absurd hq (Nat.not_lt_zero q)) (fun _ _ _ hp => absurd hp hnone) start
  obtain ⟨rfl, hone⟩ : t = 0 ∧ dfa'.size = 1 := by
    rcases hsize with ⟨ht, _⟩ | ⟨ht, hsize⟩
    · exact absurd ht (Nat.not_lt_zero t)
    · exact ⟨ht, hsize⟩
  have honly : ∀ {q S}, dfa'.Stands nfa q S ↔ q = 0 ∧ S = start := by
    intro q S
    rw [hstands, or_iff_right hnone]
  have hfree : ∀ {p c q}, ¬ dfa'.Edge p c q := by
    intro p c q he
    rw [hedge] at he
    exact absurd (lt_size_of_edge he) (Nat.not_lt_zero p)
  have hmem : nfa.start ∈ start.toList := (hstart _).2 (.refl _)
  have hne : start.isEmpty = false := by
    unfold Ordered.isEmpty
    rw [List.isEmpty_eq_false_iff]
    exact List.ne_nil_of_mem hmem
  refine ⟨dfa', hdiscover, ?_⟩
  constructor
  case start_eq => rfl
  case alphabet_eq => exact halphabet
  case stands =>
    intro q hq
    have hq : q < dfa'.size := hq
    exact ⟨start, honly.2 ⟨by omega, rfl⟩⟩
  case initial => exact ⟨start, honly.2 ⟨rfl, rfl⟩, hstart⟩
  case live =>
    intro q S hS
    obtain ⟨_, rfl⟩ := honly.1 hS
    exact ⟨hne, [], hstart⟩
  case distinct =>
    intro p q S hp hq
    rw [(honly.1 hp).1, (honly.1 hq).1]
  case edge => exact fun p c q he => absurd he hfree
  case complete =>
    rintro p c S T ⟨hc, hlt | ⟨_, hnot⟩⟩
    · exact absurd hlt (Nat.not_lt_zero p)
    · exact absurd hc hnot
  case found =>
    intro q hpos hq
    have hq : q < dfa'.size := hq
    omega
  case first => exact fun p c q he => absurd he hfree

end Growing

/-- **Subset construction.** The search ends, and all pairs are done. -/
theorem ofNfa_returns (hnfa : nfa.WellFormed) :
    Returns (ofNfa nfa) (Growing nfa fun _ c => c ∈ nfa.alphabet) := by
  unfold ofNfa
  refine (nfa.startSet_returns hnfa).bind fun start hstart => ?_
  obtain ⟨dfa, hdiscover, hgrowing⟩ := Growing.of_start hstart
  show Returns (expandAll nfa (Nat.pow 2 nfa.size)
    { (discover nfa ⟨#[], 0, nfa.alphabet⟩ start).1 with
      start := (discover nfa ⟨#[], 0, nfa.alphabet⟩ start).2 }
    (discover nfa ⟨#[], 0, nfa.alphabet⟩ start).2) _
  rw [hdiscover]
  exact hgrowing.expandAll_returns hnfa (Nat.le_refl _)

end FiniteAutomata.Dfa
