import FiniteAutomata.Proofs.Nfa.Simulation
import Mathlib.Logic.Relation
import Mathlib.Order.Bounds.Basic
/-!
# Epsilon closure with its stack

`closure` queues all new states of a step at once. `Closing` adds them one by one to the states found so
far and pushes each that is new on a stack; it also records which states were ever pushed and which were
popped. A state found was pushed once, and since then it was popped or it waits (`Aligned`), so after as
many steps as there are states the stack is empty (`runFrom_returns`), and what was popped leads to
states found only (`Explores`).

What is found is the image of the given states under reachability by edges that read nothing, and a step
followed by a closure gives an image as well. All laws about one set and another are laws of images
(`IsImage`).

Main statement: `closure_exact`.
-/

namespace FiniteAutomata.Nfa

variable {nfa : Nfa} {states states' next next' : StateSet} {p q : StateId} {c : Char}

/-! ## Images of sets of states -/

/-- `next` holds what the relation leads to from `states`. -/
def IsImage (leads : StateId → StateId → Prop) (states next : StateSet) : Prop :=
  ∀ q, q ∈ next ↔ ∃ p ∈ states, leads p q

namespace IsImage

variable {leads : StateId → StateId → Prop}

theorem unique (h : IsImage leads states next) (h' : IsImage leads states next') : next = next' :=
  Ordered.ext_mem fun q => (h q).trans (h' q).symm

theorem mono (h : IsImage leads states next) (h' : IsImage leads states' next')
    (hsub : ∀ p ∈ states, p ∈ states') : ∀ q ∈ next, q ∈ next' := by
  intro q hq
  obtain ⟨p, hp, hpq⟩ := (h q).1 hq
  exact (h' q).2 ⟨p, hsub p hp, hpq⟩

theorem union (h : IsImage leads states next) (h' : IsImage leads states' next') :
    IsImage leads (states.union states') (next.union next') := by
  intro q
  rw [StateSet.mem_union, h q, h' q]
  constructor
  · rintro (⟨p, hp, hpq⟩ | ⟨p, hp, hpq⟩)
    · exact ⟨p, StateSet.mem_union.2 (Or.inl hp), hpq⟩
    · exact ⟨p, StateSet.mem_union.2 (Or.inr hp), hpq⟩
  · rintro ⟨p, hp, hpq⟩
    rcases StateSet.mem_union.1 hp with hp | hp
    · exact Or.inl ⟨p, hp, hpq⟩
    · exact Or.inr ⟨p, hp, hpq⟩

end IsImage

/-! ## Reachability without reading -/

/-- Zero or more edges that read nothing lead from `p` to `q`. -/
def Reaches (nfa : Nfa) : StateId → StateId → Prop :=
  Relation.ReflTransGen fun p q => nfa.Edge p .epsilon q

/-- An edge that reads `c`, and then any number of edges that read nothing. -/
def ReachesBy (nfa : Nfa) (c : Char) (p q : StateId) : Prop :=
  ∃ p', nfa.Edge p (.symbol c) p' ∧ nfa.Reaches p' q

theorem path_nil_iff : Path nfa.Edge p [] q ↔ nfa.Reaches p q := by
  constructor
  · intro h
    generalize hw : ([] : List Char) = w at h
    induction h with
    | refl => exact .refl
    | epsilon first _ ih => exact .head first (ih hw)
    | symbol => cases hw
  · intro h
    induction h with
    | refl => exact .refl p
    | tail _ last ih => exact ih.snoc last

theorem Reaches.lt_size (hnfa : nfa.EdgesWithin) (h : nfa.Reaches p q) (hp : p < nfa.size) :
    q < nfa.size := by
  cases h with
  | refl => exact hp
  | tail _ last => exact hnfa.edge_lt last

theorem IsImage.lt_size (hnfa : nfa.EdgesWithin) (h : IsImage nfa.Reaches states next)
    (hlt : ∀ p ∈ states, p < nfa.size) : ∀ q ∈ next, q < nfa.size := by
  intro q hq
  obtain ⟨p, hp, hpq⟩ := (h q).1 hq
  exact hpq.lt_size hnfa (hlt p hp)

theorem closure_isImage (hnfa : nfa.EdgesWithin) (hlt : ∀ p ∈ states, p < nfa.size) :
    Returns (nfa.closure states) (IsImage nfa.Reaches states) := by
  refine (closure_returns hnfa hlt).mono fun closed hclosed q => ?_
  simp only [hclosed q, path_nil_iff]

theorem advance_isImage (hnfa : nfa.EdgesWithin) (hlt : ∀ p ∈ states, p < nfa.size) (c : Char) :
    Returns (nfa.advance states c) (IsImage (nfa.ReachesBy c) states) := by
  refine (advance_returns hnfa hlt c).mono fun next hnext q => ?_
  simp only [hnext q, path_nil_iff]
  rfl

theorem eq_ok_of_isImage {leads : StateId → StateId → Prop} {x : Checked StateSet}
    (hx : Returns x (IsImage leads states)) (h : IsImage leads states next) : x = .ok next := by
  obtain ⟨next', heq, h'⟩ := hx
  rw [heq, h'.unique h]

theorem IsImage.closed (h : IsImage nfa.Reaches states next) : IsImage nfa.Reaches next next := by
  intro q
  constructor
  · exact fun hq => ⟨q, hq, .refl⟩
  · rintro ⟨p, hp, hpq⟩
    obtain ⟨p₀, hp₀, hp⟩ := (h p).1 hp
    exact (h q).2 ⟨p₀, hp₀, hp.trans hpq⟩

/-- **Least.** Of all sets that hold the states and that no edge without a symbol leaves, the image
is the least. -/
theorem IsImage.isLeast (h : IsImage nfa.Reaches states next) :
    IsLeast {T : Set StateId | (∀ p ∈ states, p ∈ T) ∧ ∀ p ∈ T, ∀ q, nfa.Edge p .epsilon q → q ∈ T}
      {q | q ∈ next} := by
  refine ⟨⟨fun p hp => (h p).2 ⟨p, hp, .refl⟩, fun p hp q he => ?_⟩, ?_⟩
  · exact (h.closed q).2 ⟨p, hp, .single he⟩
  · rintro T ⟨hstates, hT⟩ q hq
    obtain ⟨p, hp, hpq⟩ := (h q).1 hq
    induction hpq with
    | refl => exact hstates p hp
    | tail hpath last ih => exact hT _ (ih ((h _).2 ⟨p, hp, hpath⟩)) _ last

/-! ## The stack -/

/-- A closure in progress. -/
structure Closing where
  /-- The states found so far. -/
  seen : StateSet
  /-- The states still to be expanded, last come first. -/
  stack : List StateId
  /-- All states ever pushed on the stack, in order. -/
  pushed : List StateId
  /-- All states ever popped from the stack, in order. -/
  popped : List StateId

namespace Closing

/-- A state that was not found before is pushed. -/
def add (closing : Closing) (id : StateId) : Closing :=
  if id ∈ closing.seen then closing
  else
    { closing with
      seen := closing.seen.insert id
      stack := id :: closing.stack
      pushed := closing.pushed ++ [id] }

/-- Pop a state, and add one by one what it leads to without reading. -/
def step (nfa : Nfa) (closing : Closing) : Checked Closing :=
  match closing.stack with
  | [] => .ok closing
  | id :: rest => do
    let s ← nfa.state id
    return s.epsilon.toList.foldl add { closing with stack := rest, popped := closing.popped ++ [id] }

/-- Before the first step, the given states are found and pushed, least first. -/
def start (states : StateSet) : Closing := ⟨states, states.toList.reverse, states.toList, []⟩

/-- Steps until the stack is empty, at most `bound` of them. -/
def runFrom (nfa : Nfa) (bound : Nat) (closing : Closing) : Checked Closing :=
  if closing.stack = [] then .ok closing
  else
    match bound with
    | 0 => .error .unfinished
    | bound + 1 => do runFrom nfa bound (← closing.step nfa)

/-- The whole closure, in no more steps than there are states. -/
def run (nfa : Nfa) (states : StateSet) : Checked Closing := runFrom nfa nfa.size (start states)

variable {closing last : Closing} {id : StateId} {rest : List StateId} {bound : Nat}

/-- Each state found was pushed once; it was popped since then, or it waits. -/
structure Aligned (closing : Closing) : Prop where
  mem_pushed_iff : ∀ q, q ∈ closing.pushed ↔ q ∈ closing.seen
  nodup : closing.pushed.Nodup
  split : closing.pushed.Perm (closing.popped ++ closing.stack)

theorem aligned_start (states : StateSet) : Aligned (start states) where
  mem_pushed_iff _ := Ordered.mem_toList
  nodup := states.ascending.imp Nat.ne_of_lt
  split := states.toList.reverse_perm.symm

theorem Aligned.add (h : Aligned closing) (id : StateId) : Aligned (closing.add id) := by
  unfold Closing.add
  split
  case isTrue => exact h
  case isFalse hnew =>
    constructor
    case mem_pushed_iff =>
      intro q
      rw [List.mem_append, h.mem_pushed_iff, List.mem_singleton, StateSet.mem_insert, or_comm]
    case nodup =>
      refine List.nodup_append'.2 ⟨h.nodup, List.nodup_singleton id, ?_⟩
      exact List.disjoint_singleton.2 fun hid => hnew ((h.mem_pushed_iff id).1 hid)
    case split =>
      have hnext := (List.perm_append_singleton id closing.pushed).trans (h.split.cons id)
      exact hnext.trans List.perm_middle.symm

theorem Aligned.pop (h : Aligned closing) (hstack : closing.stack = id :: rest) :
    Aligned { closing with stack := rest, popped := closing.popped ++ [id] } where
  mem_pushed_iff := h.mem_pushed_iff
  nodup := h.nodup
  split := by
    rw [List.append_assoc, List.singleton_append, ← hstack]
    exact h.split

/-- **States one by one.** All of them are found, and nothing else changes for those found before. -/
theorem addAll (h : Aligned closing) (ids : List StateId) :
    Aligned (ids.foldl add closing) ∧ (ids.foldl add closing).popped = closing.popped ∧
      ∀ q, q ∈ (ids.foldl add closing).seen ↔ q ∈ closing.seen ∨ q ∈ ids := by
  induction ids generalizing closing with
  | nil => exact ⟨h, rfl, by simp⟩
  | cons id ids ih =>
    obtain ⟨haligned, hpopped, hseen⟩ := ih (h.add id)
    have hadd : ∀ q, q ∈ (closing.add id).seen ↔ q = id ∨ q ∈ closing.seen := by
      intro q
      unfold Closing.add
      split
      case isTrue hid =>
        constructor
        · exact Or.inr
        · rintro (rfl | hq)
          · exact hid
          · exact hq
      case isFalse => exact StateSet.mem_insert
    refine ⟨haligned, hpopped.trans ?_, fun q => ?_⟩
    · unfold Closing.add
      split <;> rfl
    · rw [List.foldl_cons, hseen, hadd, List.mem_cons, or_assoc, or_left_comm]

/-- The states found are reached from the given ones, which are among them, and those popped lead to
states found only. -/
structure Explores (nfa : Nfa) (states : StateSet) (closing : Closing) : Prop extends Aligned closing where
  seed : ∀ p ∈ states, p ∈ closing.seen
  reached : ∀ q ∈ closing.seen, ∃ p ∈ states, nfa.Reaches p q
  expanded : ∀ p ∈ closing.popped, ∀ q, nfa.Edge p .epsilon q → q ∈ closing.seen

namespace Explores

theorem start (states : StateSet) : Explores nfa states (start states) where
  toAligned := aligned_start states
  seed _ hp := hp
  reached q hq := ⟨q, hq, .refl⟩
  expanded _ hp := absurd hp List.not_mem_nil

theorem lt_size (h : Explores nfa states closing) (hnfa : nfa.EdgesWithin)
    (hlt : ∀ p ∈ states, p < nfa.size) : ∀ q ∈ closing.pushed, q < nfa.size := by
  intro q hq
  obtain ⟨p, hp, hpq⟩ := h.reached q ((h.mem_pushed_iff q).1 hq)
  exact hpq.lt_size hnfa (hlt p hp)

/-- No more states are pushed than there are. -/
theorem length_le (h : Explores nfa states closing) (hnfa : nfa.EdgesWithin)
    (hlt : ∀ p ∈ states, p < nfa.size) : closing.popped.length + closing.stack.length ≤ nfa.size := by
  have hsub : closing.pushed ⊆ List.range nfa.size :=
    fun q hq => List.mem_range.2 (h.lt_size hnfa hlt q hq)
  have hlength := (h.nodup.subperm hsub).length_le
  rwa [h.split.length_eq, List.length_append, List.length_range] at hlength

theorem step_returns (h : Explores nfa states closing) (hnfa : nfa.EdgesWithin)
    (hlt : ∀ p ∈ states, p < nfa.size) (hstack : closing.stack = id :: rest) :
    Returns (closing.step nfa) fun next =>
      Explores nfa states next ∧ next.popped.length = closing.popped.length + 1 := by
  have hpushed : id ∈ closing.pushed := h.split.mem_iff.2 (by simp [hstack])
  have hseen : id ∈ closing.seen := (h.mem_pushed_iff id).1 hpushed
  obtain ⟨s, hs⟩ : ∃ s, nfa.states[id]? = some s :=
    ⟨_, Array.getElem?_eq_getElem (h.lt_size hnfa hlt id hpushed)⟩
  have hedge : ∀ {q}, nfa.Edge id .epsilon q ↔ q ∈ s.epsilon := edge_iff hs
  obtain ⟨haligned, hpopped, hmem⟩ := addAll (h.toAligned.pop hstack) s.epsilon.toList
  unfold step
  rw [hstack]
  dsimp only
  rw [state_eq_ok.2 hs]
  refine .pure ⟨⟨haligned, fun p hp => (hmem p).2 (Or.inl (h.seed p hp)), ?_, ?_⟩, ?_⟩
  · intro q hq
    rcases (hmem q).1 hq with hq | hq
    · exact h.reached q hq
    · obtain ⟨p, hp, hpid⟩ := h.reached id hseen
      exact ⟨p, hp, hpid.tail (hedge.2 hq)⟩
  · intro p hp q he
    rw [hpopped] at hp
    rcases List.mem_append.1 hp with hp | hp
    · exact (hmem q).2 (Or.inl (h.expanded p hp q he))
    · obtain rfl := List.mem_singleton.1 hp
      exact (hmem q).2 (Or.inr (hedge.1 he))
  · rw [hpopped, List.length_append, List.length_singleton]

/-- **All steps.** The stack is empty before the steps run out. -/
theorem runFrom_returns (h : Explores nfa states closing) (hnfa : nfa.EdgesWithin)
    (hlt : ∀ p ∈ states, p < nfa.size) (hbound : nfa.size ≤ bound + closing.popped.length) :
    Returns (closing.runFrom nfa bound) fun last => Explores nfa states last ∧ last.stack = [] := by
  induction bound generalizing closing with
  | zero =>
    have hempty : closing.stack = [] := by
      have hlength := h.length_le hnfa hlt
      exact List.length_eq_zero_iff.1 (by omega)
    unfold runFrom
    rw [if_pos hempty]
    exact .pure ⟨h, hempty⟩
  | succ bound ih =>
    unfold runFrom
    split
    case isTrue hempty => exact .pure ⟨h, hempty⟩
    case isFalse hne =>
      obtain ⟨id, rest, hstack⟩ := List.exists_cons_of_ne_nil hne
      refine (h.step_returns hnfa hlt hstack).bind ?_
      rintro next ⟨hnext, hpopped⟩
      exact ih hnext (by omega)

/-- With nothing left on the stack, all that is reached was found. -/
theorem isImage (h : Explores nfa states closing) (hempty : closing.stack = []) :
    IsImage nfa.Reaches states closing.seen := by
  have hpopped : ∀ p ∈ closing.seen, p ∈ closing.popped := by
    intro p hp
    have hsplit := h.split.mem_iff.1 ((h.mem_pushed_iff p).2 hp)
    rwa [hempty, List.append_nil] at hsplit
  intro q
  refine ⟨h.reached q, ?_⟩
  rintro ⟨p, hp, hpq⟩
  induction hpq with
  | refl => exact h.seed p hp
  | tail _ last ih => exact h.expanded _ (hpopped _ ih) _ last

end Explores

/-- Nothing waits, and each state found was pushed once and popped once. -/
structure Ended (last : Closing) : Prop where
  stack_eq : last.stack = []
  mem_pushed_iff : ∀ q, q ∈ last.pushed ↔ q ∈ last.seen
  nodup_pushed : last.pushed.Nodup
  popped_perm : last.popped.Perm last.pushed

theorem run_returns (hnfa : nfa.EdgesWithin) (hlt : ∀ p ∈ states, p < nfa.size) :
    Returns (run nfa states) fun last => last.Ended ∧ IsImage nfa.Reaches states last.seen := by
  refine ((Explores.start states).runFrom_returns hnfa hlt (Nat.le_add_right _ _)).mono ?_
  rintro last ⟨h, hempty⟩
  have hsplit := h.split
  rw [hempty, List.append_nil] at hsplit
  exact ⟨⟨hempty, h.mem_pushed_iff, h.nodup, hsplit.symm⟩, h.isImage hempty⟩

end Closing

/-- **Epsilon closure.** In an automaton whose edges lead to states, the search from a set of its states
ends after it has pushed each state at most once. What it found is the closure: all that zero or more edges
without a symbol lead to, which is the least set around the given one that no such edge leaves. The
closure of a closure is itself, a larger set has a larger closure, and both the closure and the advance
along a symbol of a union are the unions of those of its parts. -/
theorem closure_exact (hnfa : nfa.EdgesWithin) {A B : StateSet} (hA : ∀ p ∈ A, p < nfa.size)
    (hB : ∀ p ∈ B, p < nfa.size) (c : Char) :
    ∃ last closedB nextA nextB,
      Closing.run nfa A = .ok last ∧ last.Ended ∧ nfa.closure A = .ok last.seen ∧
      (∀ q, q ∈ last.seen ↔ ∃ p ∈ A, Relation.ReflTransGen (fun p q => nfa.Edge p .epsilon q) p q) ∧
      IsLeast {T : Set StateId | (∀ p ∈ A, p ∈ T) ∧ ∀ p ∈ T, ∀ q, nfa.Edge p .epsilon q → q ∈ T}
        {q | q ∈ last.seen} ∧
      nfa.closure last.seen = .ok last.seen ∧
      nfa.closure B = .ok closedB ∧ ((∀ p ∈ A, p ∈ B) → ∀ q ∈ last.seen, q ∈ closedB) ∧
      nfa.closure (A.union B) = .ok (last.seen.union closedB) ∧
      nfa.advance A c = .ok nextA ∧ nfa.advance B c = .ok nextB ∧
      nfa.advance (A.union B) c = .ok (nextA.union nextB) := by
  have hAB : ∀ p ∈ A.union B, p < nfa.size := by
    intro p hp
    rcases StateSet.mem_union.1 hp with hp | hp
    · exact hA p hp
    · exact hB p hp
  obtain ⟨last, hlast, hended, himageA⟩ := Closing.run_returns hnfa hA
  obtain ⟨closedB, hclosedB, himageB⟩ := closure_isImage hnfa hB
  obtain ⟨nextA, hnextA, hadvanceA⟩ := advance_isImage hnfa hA c
  obtain ⟨nextB, hnextB, hadvanceB⟩ := advance_isImage hnfa hB c
  refine ⟨last, closedB, nextA, nextB, hlast, hended, ?_, himageA, himageA.isLeast, ?_, hclosedB,
    himageA.mono himageB, ?_, hnextA, hnextB, ?_⟩
  · exact eq_ok_of_isImage (closure_isImage hnfa hA) himageA
  · exact eq_ok_of_isImage (closure_isImage hnfa (himageA.lt_size hnfa hA)) himageA.closed
  · exact eq_ok_of_isImage (closure_isImage hnfa hAB) (himageA.union himageB)
  · exact eq_ok_of_isImage (advance_isImage hnfa hAB c) (hadvanceA.union hadvanceB)

/-- Two states lead to each other: each is pushed once, and the way back pushes nothing. -/
theorem closure_exact_circling :
    circling.EdgesWithin ∧
    Closing.run circling (.singleton 0) = .ok ⟨.ofList [0, 1], [], [0, 1], [0, 1]⟩ ∧
    circling.closure (.singleton 0) = .ok (.ofList [0, 1]) ∧
    (∀ q, q ∈ (.ofList [0, 1] : StateSet) ↔ ∃ p ∈ (.singleton 0 : StateSet),
      Relation.ReflTransGen (fun p q => circling.Edge p .epsilon q) p q) ∧
    circling.closure (.ofList [0, 1]) = .ok (.ofList [0, 1]) ∧
    ∃ closed next next', circling.closure (.singleton 2) = .ok closed ∧
      circling.closure (Ordered.union (.singleton 0) (.singleton 2)) =
        .ok (Ordered.union (.ofList [0, 1]) closed) ∧
      circling.advance (.singleton 0) 'a' = .ok next ∧ circling.advance (.singleton 2) 'a' = .ok next' ∧
      circling.advance (Ordered.union (.singleton 0) (.singleton 2)) 'a' = .ok (next.union next') := by
  have hwf : circling.WellFormed := by decide
  have hrun : Closing.run circling (.singleton 0) = .ok ⟨.ofList [0, 1], [], [0, 1], [0, 1]⟩ := rfl
  have hzero : ∀ p ∈ (.singleton 0 : StateSet), p < circling.size := by
    intro p hp
    obtain rfl := List.mem_singleton.1 hp
    decide
  have htwo : ∀ p ∈ (.singleton 2 : StateSet), p < circling.size := by
    intro p hp
    obtain rfl := List.mem_singleton.1 hp
    decide
  obtain ⟨last, closed, next, next', hlast, _, hclosure, hmem, _, hidempotent, hclosed, _, hunion, hnext,
    hnext', hadvance⟩ := closure_exact hwf.edgesWithin hzero htwo 'a'
  obtain rfl := Except.ok.inj (hrun.symm.trans hlast)
  exact ⟨hwf.edgesWithin, hrun, hclosure, hmem, hidempotent, closed, next, next', hclosed, hunion, hnext,
    hnext', hadvance⟩

end FiniteAutomata.Nfa
