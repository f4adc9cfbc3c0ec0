import FiniteAutomata.Nfa
/-!
# Epsilon closure and steps

`closure` adds to a set of states all that can be reached without reading a symbol. A state is
queued when it first enters the set, so each state is queued once: a step of the search moves one
state from the queue to the states that are done with, and `closeFrom` ends after as many steps as
there are states to queue.
-/

namespace FiniteAutomata

namespace StateSet

/-- Number of states below `n` that are not in `seen`. -/
def unseen (n : Nat) (seen : StateSet) : Nat := (List.range n).countP (· ∉ seen)

theorem countP_not_mem_insert (l : List StateId) (seen : StateSet) (id : StateId) (hl : l.Nodup) :
    l.countP (· ∉ seen.insert id) + (if id ∈ l ∧ id ∉ seen then 1 else 0) = l.countP (· ∉ seen) := by
  induction l with
  | nil => simp
  | cons a l ih =>
    have := ih hl.of_cons
    have ha : id ∈ l → a ≠ id := fun h => List.rel_of_pairwise_cons hl h
    simp only [List.countP_cons, mem_insert, List.mem_cons, decide_eq_true_eq] at *
    grind

theorem unseen_insert {n : Nat} {seen : StateSet} {id : StateId} (hid : id < n) (h : id ∉ seen) :
    unseen n (seen.insert id) + 1 = unseen n seen := by
  have := countP_not_mem_insert (List.range n) seen id List.nodup_range
  rwa [if_pos ⟨List.mem_range.2 hid, h⟩] at this

theorem unseen_insertAll {n : Nat} {fresh : List StateId} {seen : StateSet} (hnodup : fresh.Nodup)
    (hlt : ∀ id ∈ fresh, id < n) (hseen : ∀ id ∈ fresh, id ∉ seen) :
    unseen n (seen.insertAll fresh) + fresh.length = unseen n seen := by
  induction fresh generalizing seen with
  | nil => rfl
  | cons id fresh ih =>
    have hid : id ∉ fresh := fun h => List.rel_of_pairwise_cons hnodup h rfl
    have := @ih (seen.insert id) hnodup.of_cons (fun x hx => hlt x (List.mem_cons_of_mem _ hx))
      (fun x hx => by
        rw [mem_insert]
        rintro (rfl | h)
        · exact hid hx
        · exact hseen x (List.mem_cons_of_mem _ hx) h)
    have := unseen_insert (hlt id List.mem_cons_self) (hseen id List.mem_cons_self)
    rw [Ordered.insertAll_cons, List.length_cons]
    omega

end StateSet

namespace Nfa

/-- The targets without reading that are not yet in `seen`. -/
def fresh (s : NfaState) (seen : StateSet) : List StateId := s.epsilon.toList.filter (· ∉ seen)

theorem fresh_nodup (s : NfaState) (seen : StateSet) : (fresh s seen).Nodup :=
  (s.epsilon.ascending.imp fun h => Nat.ne_of_lt h).filter _

/-- `seen` with all that can be reached from the `queue` without reading, where `seen` holds what was
ever queued. -/
def closeFrom (nfa : Nfa) (seen : StateSet) (queue : List StateId) : Checked StateSet :=
  match queue with
  | [] => .ok seen
  | id :: rest =>
    match nfa.states[id]? with
    | none => .error (.unknownState id)
    | some s =>
      match _h : (fresh s seen).find? (nfa.size ≤ ·) with
      | some bad => .error (.unknownState bad)
      | none => closeFrom nfa (seen.insertAll (fresh s seen)) (fresh s seen ++ rest)
termination_by StateSet.unseen nfa.size seen + queue.length
decreasing_by
  have hlt : ∀ id ∈ fresh s seen, id < nfa.size := fun id hid => by
    simpa using List.find?_eq_none.1 _h id hid
  have hseen : ∀ id ∈ fresh s seen, id ∉ seen := fun id hid => by
    simpa using (List.mem_filter.1 hid).2
  have := StateSet.unseen_insertAll (fresh_nodup s seen) hlt hseen
  simp only [List.length_append, List.length_cons]
  omega

/-- All states that can be reached from `states` without reading; they are among them. -/
def closure (nfa : Nfa) (states : StateSet) : Checked StateSet := nfa.closeFrom states states.toList

/-- The states that an edge reading `c` leads to from `states`. -/
def step (nfa : Nfa) (states : StateSet) (c : Char) : Checked StateSet :=
  states.toList.foldlM (fun next id => do
    match (← nfa.state id).targets? c with
    | some targets => return next.union targets
    | none => return next) Ordered.empty

/-- A step, and then all that can be reached without reading. -/
def advance (nfa : Nfa) (states : StateSet) (c : Char) : Checked StateSet := do
  nfa.closure (← nfa.step states c)

end Nfa

end FiniteAutomata
