import Mathlib.Algebra.GroupWithZero.Nat
import FiniteAutomata.Proofs.Nfa.Construction
/-!
# What tokens add to an automaton

Every token makes a fixed number of states (`Token.newStates`), and only a symbol makes an edge that
reads. `Adds states states' count new` says this of a part of the construction, and what is done one
after the other adds up (`Adds.trans`), so the number of states and the alphabet of the finished
automaton are read off the tokens (`adds_of_ofTokens`).

Main statement: `shape_ofTokens` puts this next to what is known of the automaton as one fragment. It
has one accepting state, which nothing leaves, and no state that is of no use.
-/

namespace FiniteAutomata

/-- Number of states that a token makes. -/
def Token.newStates : Token → Nat
  | literal _ | union | star => 2
  | plus => 1
  | optional => 3
  | concat => 0

namespace NfaState

variable {s : NfaState} {c d : Char} {target : Nat}

/-- The state has targets for the symbol. -/
def Reads (s : NfaState) (c : Char) : Prop := ∃ targets, s.targets? c = some targets

theorem not_reads_empty : ¬ empty.Reads c := by
  rintro ⟨targets, h⟩
  cases h

theorem reads_addEpsilon : (s.addEpsilon target).Reads c ↔ s.Reads c := Iff.rfl

theorem reads_addSymbol : (s.addSymbol c target).Reads d ↔ s.Reads d ∨ d = c := by
  unfold Reads
  rw [targets?_addSymbol]
  by_cases hd : d = c
  · simp [hd]
  · simp [hd]

end NfaState

namespace Nfa

namespace States

variable {states states' states'' : States} {id p q count more : Nat} {c : Char} {new old : Set Char}

/-- Some state has targets for the symbol. -/
def Reads (states : States) (c : Char) : Prop := ∃ s ∈ states, s.Reads c

/-- A changed state reads what it read before, and what is new to it. -/
theorem reads_set (hid : id < states.size) {s : NfaState}
    (hs : ∀ c, s.Reads c ↔ states[id].Reads c ∨ c ∈ new) :
    Reads (states.set id s) c ↔ states.Reads c ∨ c ∈ new := by
  have hmem : s ∈ states.set id s := Array.mem_of_getElem? (Array.getElem?_set_self hid)
  constructor
  · rintro ⟨t, ht, hc⟩
    rcases Array.mem_or_eq_of_mem_set ht with ht | rfl
    · exact Or.inl ⟨t, ht, hc⟩
    · exact ((hs c).1 hc).imp_left fun hc => ⟨_, Array.getElem_mem hid, hc⟩
  · rintro (⟨t, ht, hc⟩ | hc)
    · obtain ⟨p, hp, rfl⟩ := Array.mem_iff_getElem.1 ht
      by_cases hpid : id = p
      · subst hpid
        exact ⟨s, hmem, (hs c).2 (Or.inl hc)⟩
      · have hget : (states.set id s hid)[p]? = some states[p] := by
          rw [Array.getElem?_set_ne hid hpid, Array.getElem?_eq_getElem hp]
        exact ⟨states[p], Array.mem_of_getElem? hget, hc⟩
    · exact ⟨s, hmem, (hs c).2 (Or.inr hc)⟩

/-- There are `count` states more, and the symbols read are those read before and the `new` ones. -/
structure Adds (states states' : States) (count : Nat) (new : Set Char) : Prop where
  size_eq : states'.size = states.size + count
  reads_iff : ∀ c, states'.Reads c ↔ states.Reads c ∨ c ∈ new

theorem Adds.refl (states : States) : Adds states states 0 ∅ :=
  ⟨rfl, fun _ => (or_iff_left (Set.notMem_empty _)).symm⟩

theorem Adds.trans (h : Adds states states' count old) (h' : Adds states' states'' more new) :
    Adds states states'' (count + more) (old ∪ new) := by
  refine ⟨?_, fun c => ?_⟩
  · rw [h'.size_eq, h.size_eq, Nat.add_assoc]
  · rw [h'.reads_iff, h.reads_iff, Set.mem_union, or_assoc]

theorem adds_add (states : States) : Adds states states.add.1 1 ∅ := by
  refine ⟨size_add states, fun c => ?_⟩
  rw [or_iff_left (Set.notMem_empty c)]
  unfold Reads
  constructor
  · rintro ⟨s, hs, hc⟩
    rcases Array.mem_push.1 hs with hs | rfl
    · exact ⟨s, hs, hc⟩
    · exact absurd hc NfaState.not_reads_empty
  · rintro ⟨s, hs, hc⟩
    exact ⟨s, Array.mem_push.2 (Or.inl hs), hc⟩

theorem adds_add_add (states : States) : Adds states states.add.1.add.1 2 ∅ := by
  simpa using (adds_add states).trans (adds_add states.add.1)

theorem adds_update {f : NfaState → NfaState} (hf : ∀ s c, (f s).Reads c ↔ s.Reads c ∨ c ∈ new)
    (h : states.update id f = .ok states') : Adds states states' 0 new := by
  unfold update at h
  split at h
  · rename_i hid
    obtain rfl := Except.ok.inj h
    exact ⟨Array.size_set hid, fun c => reads_set hid (hf states[id])⟩
  · cases h

theorem adds_connectAll {pairs : List (Nat × Nat)} (h : states.connectAll pairs = .ok states') :
    Adds states states' 0 ∅ := by
  induction pairs generalizing states with
  | nil =>
    obtain rfl : states = states' := Except.ok.inj h
    exact .refl states
  | cons pair pairs ih =>
    unfold connectAll at h
    rw [List.foldlM_cons] at h
    obtain ⟨next, hnext, hrest⟩ := exists_of_bind_eq_ok h
    have hone : Adds states next 0 ∅ := adds_update (fun s c => by simp [NfaState.reads_addEpsilon]) hnext
    simpa using hone.trans (ih hrest)

/-! ## What an operator adds -/

/-- What is made, if it is made, adds `count` states and the `new` symbols. -/
def Adding (states : States) (count : Nat) (new : Set Char) (made : Checked (States × Fragment)) :
    Prop :=
  ∀ states' f, made = .ok (states', f) → Adds states states' count new

/-- Every operator makes room for new states, and then links. -/
theorem adding_connectAll {room : States} (hroom : Adds states room count ∅) (f : Fragment)
    (pairs : List (Nat × Nat)) :
    Adding states count ∅ (do return (← room.connectAll pairs, f)) := by
  intro states' f' h
  obtain ⟨linked, hlinked, hpair⟩ := exists_of_bind_eq_ok h
  cases hpair
  simpa using hroom.trans (adds_connectAll hlinked)

theorem literal_adding (states : States) (c : Char) : Adding states 2 {c} (states.literal c) := by
  intro states' f h
  obtain ⟨changed, hchanged, hpair⟩ := exists_of_bind_eq_ok h
  cases hpair
  have hsymbol : Adds states.add.1.add.1 states' 0 {c} :=
    adds_update (fun s d => NfaState.reads_addSymbol) hchanged
  simpa using (adds_add_add states).trans hsymbol

variable (states) (a b : Fragment)

theorem concat_adding : Adding states 0 ∅ (states.concat a b) := by
  have h := adding_connectAll (.refl states) ⟨a.start, b.accept⟩ [(a.accept, b.start)]
  simpa [connectAll, concat] using h

theorem union_adding : Adding states 2 ∅ (states.union a b) := by
  have h := adding_connectAll (adds_add_add states) ⟨states.size, states.size + 1⟩
    [(states.size, a.start), (states.size, b.start), (a.accept, states.size + 1),
      (b.accept, states.size + 1)]
  simpa [connectAll, union] using h

theorem star_adding : Adding states 2 ∅ (states.star a) := by
  have h := adding_connectAll (adds_add_add states) ⟨states.size, states.size + 1⟩
    [(states.size, a.start), (states.size, states.size + 1), (a.accept, a.start),
      (a.accept, states.size + 1)]
  simpa [connectAll, star] using h

theorem plus_adding : Adding states 1 ∅ (states.plus a) := by
  have h := adding_connectAll (adds_add states) ⟨a.start, states.size⟩
    [(a.accept, a.start), (a.accept, states.size)]
  simpa [connectAll, plus] using h

theorem optional_adding : Adding states 3 ∅ (states.optional a) := by
  intro states' f h
  simpa using (adds_add states).trans (union_adding states.add.1 a _ states' f h)

end States

/-! ## Token by token -/

open States

namespace Builder

variable {b b' : Builder} {t : Token} {tokens : List Token}

theorem push_adds {states : States} {count : Nat} {new : Set Char} {rest : List Fragment}
    {made : Checked (States × Fragment)} (hmade : Adding states count new made)
    (h : push rest made = .ok b') : Adds states b'.states count new := by
  unfold push at h
  split at h
  · cases h
    exact hmade _ _ rfl
  · cases h

theorem feed_adds {position : Nat} (h : b.feed t position = .ok b') :
    Adds b.states b'.states t.newStates {c | t = .literal c} := by
  obtain ⟨states, stack⟩ := b
  have hnone : ∀ {t : Token}, t.isOperator = true → {c | t = .literal c} = (∅ : Set Char) := by
    rintro t ht
    refine Set.eq_empty_of_forall_notMem fun c hc => ?_
    rw [show t = .literal c from hc] at ht
    cases ht
  cases t with
  | literal d =>
    have hsymbol : {c | Token.literal d = .literal c} = ({d} : Set Char) := by
      ext c
      simp [eq_comm]
    rw [hsymbol]
    exact push_adds (states.literal_adding d) h
  | concat =>
    rw [hnone rfl]
    match stack with
    | [] | [_] => cases h
    | y :: x :: rest => exact push_adds (states.concat_adding x y) h
  | union =>
    rw [hnone rfl]
    match stack with
    | [] | [_] => cases h
    | y :: x :: rest => exact push_adds (states.union_adding x y) h
  | star =>
    rw [hnone rfl]
    match stack with
    | [] => cases h
    | x :: rest => exact push_adds (states.star_adding x) h
  | plus =>
    rw [hnone rfl]
    match stack with
    | [] => cases h
    | x :: rest => exact push_adds (states.plus_adding x) h
  | optional =>
    rw [hnone rfl]
    match stack with
    | [] => cases h
    | x :: rest => exact push_adds (states.optional_adding x) h

theorem feedAll_adds {position : Nat} (h : b.feedAll position tokens = .ok b') :
    Adds b.states b'.states (tokens.map Token.newStates).sum {c | .literal c ∈ tokens} := by
  induction tokens generalizing b position with
  | nil =>
    obtain rfl : b = b' := Except.ok.inj h
    simpa using Adds.refl b.states
  | cons t tokens ih =>
    obtain ⟨next, hnext, hrest⟩ := exists_of_bind_eq_ok (show (do
      (← b.feed t position).feedAll (position + 1) tokens) = _ from h)
    have hsymbols : {c | Token.literal c ∈ t :: tokens} =
        {c | t = .literal c} ∪ {c | Token.literal c ∈ tokens} := by
      ext c
      simp [eq_comm]
    rw [List.map_cons, List.sum_cons, hsymbols]
    exact (feed_adds hnext).trans (ih hrest)

end Builder

theorem adds_of_ofTokens {tokens : List Token} {nfa : Nfa} (h : ofTokens tokens = .ok nfa)
    (hne : tokens ≠ []) :
    Adds #[] nfa.states (tokens.map Token.newStates).sum {c | .literal c ∈ tokens} := by
  obtain ⟨t, tokens, rfl⟩ := List.exists_cons_of_ne_nil hne
  rw [ofTokens_cons] at h
  obtain ⟨b, hb, hfinish⟩ := exists_of_bind_eq_ok h
  have hstates : nfa.states = b.states := by
    unfold Builder.finish at hfinish
    split at hfinish
    · cases hfinish
      rfl
    · cases hfinish
  rw [hstates]
  exact Builder.feedAll_adds hb

/-! ## The finished automaton -/

/-- **Shape.** The automaton of some tokens has one accepting state, which no edge leaves. All edges
lead to states, all states are reached from the start and reach the accepting one, the alphabet has
the symbols among the tokens, and every token has its share of the states. -/
theorem shape_ofTokens {tokens : List Token} {nfa : Nfa} (h : ofTokens tokens = .ok nfa)
    (hne : tokens ≠ []) :
    ∃ last, nfa.accept = Ordered.singleton last ∧ (∀ l q, ¬ nfa.Edge last l q) ∧
      nfa.start < nfa.size ∧ last < nfa.size ∧ (∀ p l q, nfa.Edge p l q → q < nfa.size) ∧
      (∀ p < nfa.size,
        (∃ w, Path nfa.Edge nfa.start w p) ∧ ∃ w, Path nfa.Edge p w last) ∧
      (∀ c, c ∈ nfa.alphabet ↔ .literal c ∈ tokens) ∧
      nfa.size = (tokens.map Token.newStates).sum := by
  obtain ⟨f, hwhole⟩ := isWhole_of_ofTokens h
  have hadds := adds_of_ofTokens h hne
  have hmem : ∀ p < nfa.size, p ∈ Set.Ico 0 nfa.size := fun p hp => ⟨Nat.zero_le p, hp⟩
  refine ⟨f.accept, hwhole.accept_eq, hwhole.fragment.accept_final, hwhole.wellFormed.start_lt,
    hwhole.fragment.accept_mem.2, fun p l q he => hwhole.wellFormed.edge_lt he, fun p hp => ⟨?_, ?_⟩,
    fun c => ?_, ?_⟩
  · exact hwhole.trim.reach p hp
  · exact hwhole.fragment.coreach p (hmem p hp)
  · have hempty : ¬ Reads #[] c := by
      rintro ⟨s, hs, _⟩
      exact Array.not_mem_empty s hs
    rw [mem_alphabet_iff]
    exact (hadds.reads_iff c).trans (or_iff_right hempty)
  · exact hadds.size_eq.trans (Nat.zero_add _)

/-- A loop in a fragment that may be passed by, and a symbol that occurs twice. -/
theorem shape_ofTokens_twice :
    ∃ nfa, ofTokens [.literal 'b', .plus, .literal 'a', .optional, .concat, .literal 'b', .union] =
      .ok nfa ∧
    ([.literal 'b', .plus, .literal 'a', .optional, .concat, .literal 'b', .union] : List Token) ≠ [] ∧
    ∃ last, nfa.accept = Ordered.singleton last ∧ (∀ l q, ¬ nfa.Edge last l q) ∧
      nfa.start < nfa.size ∧ last < nfa.size ∧ (∀ p l q, nfa.Edge p l q → q < nfa.size) ∧
      (∀ p < nfa.size,
        (∃ w, Path nfa.Edge nfa.start w p) ∧ ∃ w, Path nfa.Edge p w last) ∧
      (∀ c, c ∈ nfa.alphabet ↔ c = 'a' ∨ c = 'b') ∧ nfa.size = 12 := by
  have h : ∃ nfa, ofTokens
      [.literal 'b', .plus, .literal 'a', .optional, .concat, .literal 'b', .union] = .ok nfa :=
    ⟨_, rfl⟩
  obtain ⟨nfa, h⟩ := h
  have hne : ([.literal 'b', .plus, .literal 'a', .optional, .concat, .literal 'b', .union] :
      List Token) ≠ [] := List.cons_ne_nil _ _
  obtain ⟨last, haccept, hfinal, hstart, hlast, hedge, huseful, halphabet, hsize⟩ := shape_ofTokens h hne
  refine ⟨nfa, h, hne, last, haccept, hfinal, hstart, hlast, hedge, huseful, fun c => ?_, hsize⟩
  simp only [halphabet, List.mem_cons, Token.literal.injEq, reduceCtorEq, List.not_mem_nil, false_or,
    or_false]
  tauto

end Nfa

end FiniteAutomata
