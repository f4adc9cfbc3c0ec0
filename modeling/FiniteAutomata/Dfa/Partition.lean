import FiniteAutomata.Dfa
/-!
# Partitions of the states

The transition table of a deterministic automaton is made total by one more row, the dead row, that
every missing edge leads to. Rows are parted into blocks, first by acceptance alone, and each pass
parts a block further by the blocks that its rows lead to. After `k` passes two rows share a block
if no word of length at most `k` tells them apart. When a pass adds no block the partition is stable.

There are never more blocks than rows, so as many passes as there are rows are enough.
-/

namespace FiniteAutomata

/-- The parts of a list by `key`, in the order in which keys occur first. -/
def splitBy {α β : Type} [DecidableEq β] (key : α → β) : List α → List (List α)
  | [] => []
  | a :: rest =>
    (a :: rest.filter (key · = key a)) :: splitBy key (rest.filter (key · ≠ key a))
termination_by l => l.length
decreasing_by
  rw [List.length_unattach]
  exact Nat.lt_succ_of_le (Nat.le_trans (List.length_filter_le _ _) (by simp))

/-- The number of a row: that of a state, or the number of states for the dead row. -/
abbrev Row := Nat

/-- Rows that are not told apart, in ascending order. -/
abbrev Block := List Row

/-- Blocks of rows. -/
abbrev Partition := List Block

namespace Partition

/-- For each of `count` rows the number of its block. -/
def index (p : Partition) (count : Nat) : Array (Option Nat) :=
  (Array.range count).map fun row => p.findIdx? (row ∈ ·)

/-- The number of the block of `row`. -/
def blockOf (index : Array (Option Nat)) (row : Row) : Checked Nat :=
  match index[row]? with
  | some (some b) => .ok b
  | _ => .error (.unknownState row)

/-- The blocks as lists between brackets. -/
def text (p : Partition) : String :=
  "[" ++ ", ".intercalate (p.map fun block => "[" ++ ", ".intercalate (block.map Nat.repr) ++ "]") ++ "]"

end Partition

/-- A total transition table. -/
structure TransitionTable where
  /-- For each row its targets, in the order of the alphabet. -/
  targets : Array (List Row)
  /-- Whether a word that ends in a row is accepted. -/
  accept : Array Bool

namespace TransitionTable

/-- The table of an automaton, with a dead row after its states. -/
def ofDfa (dfa : Dfa) : TransitionTable :=
  let symbols := dfa.alphabet.toList
  { targets :=
      (dfa.states.map fun s => symbols.map fun c => (s.edges.get? c).getD dfa.size).push
        (symbols.map fun _ => dfa.size)
    accept := (dfa.states.map (·.isAccept)).push false }

/-- Number of rows. -/
def size (t : TransitionTable) : Nat := t.targets.size

/-- The targets of a row. -/
def row (t : TransitionTable) (r : Row) : Checked (List Row) :=
  match t.targets[r]? with
  | some targets => .ok targets
  | none => .error (.unknownState r)

/-- Whether a word that ends in the row is accepted. -/
def isAccept (t : TransitionTable) (r : Row) : Bool := t.accept[r]?.getD false

/-- The rows by acceptance: accepting ones, then the others. -/
def initialPartition (t : TransitionTable) : Partition :=
  let (accepting, rejecting) := (List.range t.size).partition t.isAccept
  [accepting, rejecting].filter (!·.isEmpty)

/-- The blocks that a row leads to, in the order of the alphabet. -/
def signature (t : TransitionTable) (index : Array (Option Nat)) (r : Row) : Checked (List Nat) := do
  (← t.row r).mapM (Partition.blockOf index)

/-- A block parted by signature. -/
def refineBlock (t : TransitionTable) (index : Array (Option Nat)) (block : Block) :
    Checked (List Block) := do
  let signed ← block.mapM fun r => return (← t.signature index r, r)
  return (splitBy Prod.fst signed).map (·.map Prod.snd)

/-- All blocks parted by the blocks that their rows lead to. -/
def refine (t : TransitionTable) (p : Partition) : Checked Partition := do
  return (← p.mapM (t.refineBlock (p.index t.size))).flatten

/-- The results of passes over `p`, at most `bound`, until one adds no block. -/
def passesFrom (t : TransitionTable) : Nat → Partition → Checked (List Partition)
  | 0, _ => .error .unfinished
  | bound + 1, p => do
    let refined ← t.refine p
    if refined.length = p.length then return [refined]
    return refined :: (← t.passesFrom bound refined)

/-- The results of all passes, the stable partition last. -/
def passes (t : TransitionTable) : Checked (List Partition) := t.passesFrom t.size t.initialPartition

/-- The stable partition. -/
def stablePartition (t : TransitionTable) : Checked Partition := do
  return (← t.passes).getLast?.getD t.initialPartition

end TransitionTable

end FiniteAutomata
