import FiniteAutomata.Proofs.Dfa.Simulation
/-!
# The search with its queue

`ofNfa` goes through the states in the order of their numbers. `Search` keeps the parts of the search
apart: the sets found so far, where the place of a set is its number, the automaton made so far, and
the numbers that wait in a queue. It also records which numbers were ever queued and which were taken
from the queue.

One step takes the first number from the queue and expands its state. The parts stay aligned
(`Aligned`) through every symbol (`follow_returns`) and every step (`step_returns`), so the search
makes the same automaton, and it ends with an empty queue after every state was queued and expanded
once (`run_returns`).

Main statement: `search_ofNfa`, together with what the states of the automaton stand for
(`IsSubsetAutomaton`).
-/

namespace FiniteAutomata.Dfa

/-- A search in progress. -/
structure Search where
  /-- The sets found so far; the place of a set is its number. -/
  seen : Array StateSet
  /-- The automaton made so far. -/
  dfa : Dfa
  /-- The numbers of the states still to be expanded, first come first. -/
  queue : List StateId
  /-- All numbers ever put into the queue, in order. -/
  queued : List StateId
  /-- All numbers ever taken from the queue, in order. -/
  expanded : List StateId

namespace Search

/-- A set that is new gets the next state, which is queued. -/
def add (nfa : Nfa) (search : Search) (subset : StateSet) : Search × StateId :=
  let id := search.dfa.size
  let s : DfaState := ⟨subset, Ordered.empty, subset.intersects nfa.accept⟩
  ({ seen := search.seen.push subset
     dfa := { search.dfa with states := search.dfa.states.push s }
     queue := search.queue ++ [id]
     queued := search.queued ++ [id]
     expanded := search.expanded }, id)

/-- The number of a set, which is added if it was not seen yet. -/
def enter (nfa : Nfa) (search : Search) (subset : StateSet) : Search × StateId :=
  match search.seen.findIdx? (· = subset) with
  | some id => (search, id)
  | none => search.add nfa subset

/-- Give the state `id`, which stands for `subset`, its target for `c`. -/
def follow (nfa : Nfa) (id : StateId) (subset : StateSet) (search : Search) (c : Char) :
    Checked Search := do
  let next ← nfa.advance subset c
  if next.isEmpty then return search
  let (search, target) := search.enter nfa next
  return { search with dfa := ← search.dfa.addEdge id c target }

/-- Take the first number from the queue, and give its state all its targets. -/
def step (nfa : Nfa) (search : Search) : Checked Search :=
  match search.queue with
  | [] => .ok search
  | id :: rest =>
    match search.seen[id]? with
    | none => .error (.unknownState id)
    | some subset =>
      nfa.alphabet.toList.foldlM (follow nfa id subset)
        { search with queue := rest, expanded := search.expanded ++ [id] }

/-- The search before its first step: the set of the start is found, and its state is queued. -/
def start (nfa : Nfa) : Checked Search := do
  let (search, id) := add nfa ⟨#[], ⟨#[], 0, nfa.alphabet⟩, [], [], []⟩ (← nfa.startSet)
  return { search with dfa := { search.dfa with start := id } }

/-- Steps until the queue is empty, at most `bound` of them. -/
def runFrom (nfa : Nfa) (bound : Nat) (search : Search) : Checked Search :=
  if search.queue = [] then .ok search
  else
    match bound with
    | 0 => .error .unfinished
    | bound + 1 => do runFrom nfa bound (← search.step nfa)

/-- The whole search. -/
def run (nfa : Nfa) : Checked Search := do
  runFrom nfa (Nat.pow 2 nfa.size) (← start nfa)

/-! ## Parts in step -/

/-- The places of the sets are the numbers of their states. Each number was queued once, in order, and
the first `done` of them were expanded. -/
structure Aligned (nfa : Nfa) (search : Search) (done : Nat) : Prop where
  alphabet_eq : search.dfa.alphabet = nfa.alphabet
  seen_eq : search.seen = search.dfa.states.map (·.subset)
  queued_eq : search.queued = List.range search.dfa.size
  expanded_eq : search.expanded = List.range done
  /-- What was queued was expanded or waits. -/
  split : search.queued = search.expanded ++ search.queue

variable {nfa : Nfa} {search : Search} {dfa' : Dfa} {done id p t bound : Nat} {c : Char}
  {S T : StateSet} {symbols : List Char}

theorem addEdge_subsets {dfa : Dfa} (h : dfa.addEdge p c t = .ok dfa') :
    dfa'.alphabet = dfa.alphabet ∧ dfa'.size = dfa.size ∧
      dfa'.states.map (·.subset) = dfa.states.map (·.subset) := by
  unfold addEdge at h
  split at h
  · rename_i hp
    dsimp only at h
    split at h
    · obtain rfl := Except.ok.inj h
      refine ⟨rfl, Array.size_set hp, ?_⟩
      rw [Array.map_set]
      refine Array.ext (Array.size_set _) fun i hi hi' => ?_
      rw [Array.getElem_set]
      split
      · rename_i hpi
        subst hpi
        rw [Array.getElem_map]
      · rfl
    · cases h
  · cases h

namespace Aligned

/-- A state was expanded or waits. -/
theorem size_eq (h : Aligned nfa search done) : search.dfa.size = done + search.queue.length := by
  have hlength := congrArg List.length h.split
  rwa [h.queued_eq, h.expanded_eq, List.length_append, List.length_range, List.length_range] at hlength

theorem done_le (h : Aligned nfa search done) : done ≤ search.dfa.size :=
  h.size_eq ▸ Nat.le_add_right done _

/-- The queue is empty when all states are expanded. -/
theorem queue_eq_nil_iff (h : Aligned nfa search done) : search.queue = [] ↔ search.dfa.size ≤ done := by
  have hsize := h.size_eq
  rw [← List.length_eq_zero_iff]
  omega

/-- Otherwise the first state not yet expanded is at its head. -/
theorem exists_queue_eq (h : Aligned nfa search done) (hlt : done < search.dfa.size) :
    ∃ rest, search.queue = done :: rest := by
  cases hqueue : search.queue with
  | nil => exact absurd (h.queue_eq_nil_iff.1 hqueue) (Nat.not_le.2 hlt)
  | cons id rest =>
    have hget := congrArg (·[done]?) h.split
    rw [h.queued_eq, h.expanded_eq, hqueue] at hget
    obtain rfl : done = id := by simpa [hlt] using hget
    exact ⟨rest, rfl⟩

theorem seen_getElem? (h : Aligned nfa search done) {s : DfaState} (hs : search.dfa.states[id]? = some s) :
    search.seen[id]? = some s.subset := by
  rw [h.seen_eq, Array.getElem?_map, hs]
  rfl

theorem find?_eq (h : Aligned nfa search done) (T : StateSet) :
    search.seen.findIdx? (· = T) = search.dfa.find? T := by
  rw [h.seen_eq, Array.findIdx?_map]
  rfl

theorem add (h : Aligned nfa search done) (T : StateSet) : Aligned nfa (search.add nfa T).1 done := by
  have hsize : (search.add nfa T).1.dfa.size = search.dfa.size + 1 := Array.size_push _
  constructor
  case alphabet_eq => exact h.alphabet_eq
  case seen_eq =>
    show search.seen.push T = (search.dfa.states.push _).map (·.subset)
    rw [h.seen_eq, Array.map_push]
  case queued_eq =>
    rw [hsize, List.range_succ]
    show search.queued ++ [search.dfa.size] = _
    rw [h.queued_eq]
  case expanded_eq => exact h.expanded_eq
  case split =>
    show search.queued ++ [search.dfa.size] = search.expanded ++ (search.queue ++ [search.dfa.size])
    rw [h.split, List.append_assoc]

/-- A set gets the number that it gets without a queue. -/
theorem enter (h : Aligned nfa search done) (T : StateSet) :
    discover nfa search.dfa T = ((search.enter nfa T).1.dfa, (search.enter nfa T).2) ∧
      Aligned nfa (search.enter nfa T).1 done := by
  unfold Search.enter discover
  rw [h.find?_eq]
  cases search.dfa.find? T with
  | some id => exact ⟨rfl, h⟩
  | none => exact ⟨rfl, h.add T⟩

theorem follow_returns (h : Aligned nfa search done)
    (hsymbol : expandSymbol nfa id S search.dfa c = .ok dfa') :
    Returns (search.follow nfa id S c) fun next => next.dfa = dfa' ∧ Aligned nfa next done := by
  obtain ⟨T, hT, hsymbol⟩ := exists_of_bind_eq_ok hsymbol
  unfold follow
  rw [hT]
  show Returns (if T.isEmpty = true then pure search else do
    return { (search.enter nfa T).1 with
      dfa := ← (search.enter nfa T).1.dfa.addEdge id c (search.enter nfa T).2 }) _
  by_cases hempty : T.isEmpty = true
  · rw [if_pos hempty] at hsymbol ⊢
    exact .pure ⟨Except.ok.inj hsymbol, h⟩
  · rw [if_neg hempty] at hsymbol ⊢
    obtain ⟨hdiscover, h'⟩ := h.enter T
    rw [hdiscover] at hsymbol
    have hadd : (search.enter nfa T).1.dfa.addEdge id c (search.enter nfa T).2 = .ok dfa' := hsymbol
    obtain ⟨halphabet, hsize, hsubsets⟩ := addEdge_subsets hadd
    rw [hadd]
    refine .pure ⟨rfl, ?_⟩
    exact ⟨halphabet.trans h'.alphabet_eq, h'.seen_eq.trans hsubsets.symm, hsize ▸ h'.queued_eq,
      h'.expanded_eq, h'.split⟩

theorem follow_all_returns (h : Aligned nfa search done)
    (hsymbols : symbols.foldlM (expandSymbol nfa id S) search.dfa = .ok dfa') :
    Returns (symbols.foldlM (follow nfa id S) search) fun next =>
      next.dfa = dfa' ∧ Aligned nfa next done := by
  induction symbols generalizing search with
  | nil => exact .pure ⟨Except.ok.inj hsymbols, h⟩
  | cons c symbols ih =>
    rw [List.foldlM_cons] at hsymbols ⊢
    obtain ⟨dfa₁, hsymbol, hrest⟩ := exists_of_bind_eq_ok hsymbols
    refine (h.follow_returns hsymbol).bind ?_
    rintro next ⟨rfl, h'⟩
    exact ih h' hrest

/-- **One step.** The first state not yet expanded is expanded. -/
theorem step_returns (h : Aligned nfa search done) (hlt : done < search.dfa.size)
    (hexpand : search.dfa.expand nfa done = .ok dfa') :
    Returns (search.step nfa) fun next => next.dfa = dfa' ∧ Aligned nfa next (done + 1) := by
  obtain ⟨rest, hqueue⟩ := h.exists_queue_eq hlt
  obtain ⟨s, hs, hsymbols⟩ := exists_of_bind_eq_ok hexpand
  rw [h.alphabet_eq] at hsymbols
  unfold step
  rw [hqueue]
  dsimp only
  rw [h.seen_getElem? (state_eq_ok.1 hs)]
  refine follow_all_returns ⟨h.alphabet_eq, h.seen_eq, h.queued_eq, ?_, ?_⟩ hsymbols
  · rw [h.expanded_eq, List.range_succ]
  · rw [h.split, hqueue, List.append_assoc]
    rfl

theorem runFrom_of_done (h : Aligned nfa search done) (hdone : ¬ done < search.dfa.size) (bound : Nat) :
    search.runFrom nfa bound = .ok search ∧ Aligned nfa search search.dfa.size := by
  have hle := Nat.not_lt.1 hdone
  obtain rfl : done = search.dfa.size := Nat.le_antisymm h.done_le hle
  unfold runFrom
  rw [if_pos (h.queue_eq_nil_iff.2 hle)]
  exact ⟨rfl, h⟩

theorem runFrom_returns (h : Aligned nfa search done)
    (hall : expandAll nfa bound search.dfa done = .ok dfa') :
    Returns (search.runFrom nfa bound) fun last => last.dfa = dfa' ∧ Aligned nfa last dfa'.size := by
  induction bound generalizing search done with
  | zero =>
    unfold expandAll at hall
    split at hall
    · cases hall
    · rename_i hdone
      obtain rfl := Except.ok.inj hall
      obtain ⟨hstop, haligned⟩ := h.runFrom_of_done hdone 0
      exact ⟨search, hstop, rfl, haligned⟩
  | succ bound ih =>
    unfold expandAll at hall
    split at hall
    · rename_i hlt
      obtain ⟨dfa₁, hexpand, hrest⟩ := exists_of_bind_eq_ok hall
      unfold runFrom
      rw [if_neg fun hnil => absurd (h.queue_eq_nil_iff.1 hnil) (Nat.not_le.2 hlt)]
      refine (h.step_returns hlt hexpand).bind ?_
      rintro next ⟨rfl, h'⟩
      exact ih h' hrest
    · rename_i hdone
      obtain rfl := Except.ok.inj hall
      obtain ⟨hstop, haligned⟩ := h.runFrom_of_done hdone (bound + 1)
      exact ⟨search, hstop, rfl, haligned⟩

end Aligned

/-- **Whole search.** It makes the automaton of reachable subsets. Every state was queued once and
expanded once, in the order of the numbers, and none waits. -/
theorem run_returns (h : ofNfa nfa = .ok dfa') :
    Returns (run nfa) fun last => last.dfa = dfa' ∧ last.queue = [] ∧
      last.seen = dfa'.states.map (·.subset) ∧ last.queued = List.range dfa'.size ∧
      last.expanded = List.range dfa'.size := by
  obtain ⟨S, hS, hall⟩ := exists_of_bind_eq_ok h
  have hfind : find? ⟨#[], 0, nfa.alphabet⟩ S = none := Array.findIdx?_empty
  unfold discover at hall
  rw [hfind] at hall
  have hempty : Aligned nfa ⟨#[], ⟨#[], 0, nfa.alphabet⟩, [], [], []⟩ 0 :=
    ⟨rfl, Array.map_empty.symm, rfl, rfl, rfl⟩
  obtain ⟨halphabet, hseen, hqueued, hexpanded, hsplit⟩ := hempty.add S
  -- the number of the start does not matter to what is in step
  have hstart (start : StateId) :
      Aligned nfa { (add nfa ⟨#[], ⟨#[], 0, nfa.alphabet⟩, [], [], []⟩ S).1 with
        dfa := { (add nfa ⟨#[], ⟨#[], 0, nfa.alphabet⟩, [], [], []⟩ S).1.dfa with start } } 0 :=
    ⟨halphabet, hseen, hqueued, hexpanded, hsplit⟩
  unfold run start
  rw [hS]
  refine ((hstart 0).runFrom_returns hall).mono ?_
  rintro last ⟨rfl, haligned⟩
  exact ⟨rfl, haligned.queue_eq_nil_iff.2 (Nat.le_refl _), haligned.seen_eq, haligned.queued_eq,
    haligned.expanded_eq⟩

end Search

/-! ## What the states stand for -/

/-- The states stand for different non-empty sets of states of the other automaton, each with all that
edges reading nothing lead to, and targets are where the sets advance to. -/
structure IsSubsetAutomaton (nfa : Nfa) (dfa : Dfa) : Prop where
  start_eq : dfa.start = 0
  start_subset : ∃ s, dfa.state 0 = .ok s ∧ nfa.startSet = .ok s.subset
  alphabet_eq : dfa.alphabet = nfa.alphabet
  nonempty : ∀ q s, dfa.state q = .ok s → ∃ p, p ∈ s.subset
  distinct : ∀ q r s t, dfa.state q = .ok s → dfa.state r = .ok t → s.subset = t.subset → q = r
  closed : ∀ q s, dfa.state q = .ok s → ∀ p p', p ∈ s.subset → nfa.Edge p .epsilon p' → p' ∈ s.subset
  size_le : dfa.size ≤ 2 ^ nfa.size - 1
  isAccept_iff : ∀ q s, dfa.state q = .ok s →
    (dfa.isAccept q = true ↔ ∃ p, p ∈ s.subset ∧ p ∈ nfa.accept)
  /-- Without a target, the set advances to nothing. -/
  target_eq : ∀ q s, dfa.state q = .ok s → ∀ c, ∃ next target?,
    nfa.advance s.subset c = .ok next ∧ dfa.target q c = .ok target? ∧
      (target? = none ↔ ∀ p, p ∉ next) ∧
      ∀ r, target? = some r ↔ ∃ t, dfa.state r = .ok t ∧ t.subset = next

namespace Explored

variable {nfa : Nfa} {dfa : Dfa} {q : Nat} {s : DfaState} {S T : StateSet} {w : List Char} {c : Char}

theorem stands_of_state (h : Explored nfa dfa) (hs : dfa.state q = .ok s) : dfa.Stands nfa q s.subset := by
  have hs := state_eq_ok.1 hs
  obtain ⟨S, hS⟩ := h.stands q (Array.getElem?_eq_some_iff.1 hs).1
  obtain ⟨s', hs', rfl, haccept⟩ := hS
  obtain rfl : s = s' := Option.some.inj (hs.symm.trans hs')
  exact ⟨s, hs, rfl, haccept⟩

theorem find?_eq_some_iff_state (h : Explored nfa dfa) :
    dfa.find? S = some q ↔ ∃ t, dfa.state q = .ok t ∧ t.subset = S := by
  rw [h.find?_eq_some_iff]
  constructor
  · rintro ⟨t, ht, hsubset, _⟩
    exact ⟨t, state_eq_ok.2 ht, hsubset⟩
  · rintro ⟨t, ht, rfl⟩
    exact h.stands_of_state ht

theorem next?_eq_find? (h : Explored nfa dfa) (hnfa : nfa.WellFormed) (hS : dfa.Stands nfa q S)
    (hlive : nfa.IsLive w S) (hnext : nfa.advance S c = .ok T) : dfa.next? q c = dfa.find? T := by
  have hliveT : nfa.IsLive (w ++ [c]) T := (hlive.advance hnfa c).of_eq_ok hnext
  have hspec := h.next?_spec hnfa hS hlive c
  cases hr : dfa.next? q c with
  | some r =>
    rw [hr] at hspec
    obtain ⟨T', hT', hliveT'⟩ := hspec
    obtain rfl := hliveT.unique hliveT'
    exact (h.find?_eq_some_iff.2 hT').symm
  | none =>
    rw [hr] at hspec
    exact (h.find?_eq_none_of_isEmpty (hliveT.isEmpty_iff.2 hspec)).symm

theorem isSubsetAutomaton (h : Explored nfa dfa) (hnfa : nfa.WellFormed) : IsSubsetAutomaton nfa dfa := by
  have hlive : ∀ q s, dfa.state q = .ok s → ∃ w, nfa.IsLive w s.subset :=
    fun q s hs => (h.live q s.subset (h.stands_of_state hs)).2
  constructor
  case start_eq => exact h.start_eq
  case start_subset =>
    obtain ⟨S, ⟨s, hs, rfl, _⟩, hS⟩ := h.initial
    obtain ⟨S', hstart, hS'⟩ := nfa.startSet_returns hnfa
    obtain rfl := hS.unique hS'
    exact ⟨s, state_eq_ok.2 hs, hstart⟩
  case alphabet_eq => exact h.alphabet_eq
  case nonempty =>
    intro q s hs
    obtain ⟨hne, _⟩ := h.live q s.subset (h.stands_of_state hs)
    exact List.exists_mem_of_ne_nil _ (List.isEmpty_eq_false_iff.1 hne)
  case distinct =>
    intro q r s t hs ht heq
    exact h.distinct q r s.subset (h.stands_of_state hs) (heq ▸ h.stands_of_state ht)
  case closed =>
    intro q s hs p p' hp he
    obtain ⟨w, hw⟩ := hlive q s hs
    have hpath := ((hw p).1 hp).trans (.epsilon he (.refl p'))
    rw [List.append_nil] at hpath
    exact (hw p').2 hpath
  case size_le => exact Nat.le_sub_one_of_lt (h.size_lt hnfa)
  case isAccept_iff =>
    intro q s hs
    rw [(h.stands_of_state hs).isAccept_eq, StateSet.intersects_iff]
  case target_eq =>
    intro q s hs c
    obtain ⟨w, hw⟩ := hlive q s hs
    obtain ⟨T, hT, hliveT⟩ := hw.advance hnfa c
    have hnext := h.next?_eq_find? hnfa (h.stands_of_state hs) hw hT
    refine ⟨T, dfa.find? T, hT, ?_, h.find?_eq_none_iff hnfa hliveT, fun r => h.find?_eq_some_iff_state⟩
    rw [← hnext]
    exact target_eq (h.stands_of_state hs).lt_size

end Explored

/-- **Search.** It ends: the queue is empty, and every state was queued once and expanded once. The
automaton that it made is that of reachable subsets. -/
theorem search_ofNfa {nfa : Nfa} (hnfa : nfa.WellFormed) :
    ∃ dfa last, ofNfa nfa = .ok dfa ∧ Search.run nfa = .ok last ∧ last.dfa = dfa ∧ last.queue = [] ∧
      last.seen = dfa.states.map (·.subset) ∧ last.queued = List.range dfa.size ∧
      last.expanded = List.range dfa.size ∧ IsSubsetAutomaton nfa dfa := by
  obtain ⟨dfa, hdfa, h⟩ := ofNfa_returns hnfa
  obtain ⟨last, hlast, heq, hqueue, hseen, hqueued, hexpanded⟩ := Search.run_returns hdfa
  exact ⟨dfa, last, hdfa, hlast, heq, hqueue, hseen, hqueued, hexpanded, Explored.isSubsetAutomaton h hnfa⟩

theorem search_ofNfa_forked :
    forked.WellFormed ∧
    ∃ dfa last, ofNfa forked = .ok dfa ∧ Search.run forked = .ok last ∧ last.dfa = dfa ∧
      last.queue = [] ∧ last.seen = dfa.states.map (·.subset) ∧ last.queued = List.range dfa.size ∧
      last.expanded = List.range dfa.size ∧ IsSubsetAutomaton forked dfa := by
  have h : forked.WellFormed := by decide
  exact ⟨h, search_ofNfa h⟩

end FiniteAutomata.Dfa
