import FiniteAutomata.Dfa.Partition
/-!
# The minimal automaton

The states of `Dfa.minimal dfa` are the blocks of the stable partition: the block of the start first,
then the others by their smallest member. The block of the dead row is left out, unless it is that
of the start, and edges into it are left undefined. A state records the states of its block.
-/

namespace FiniteAutomata.Dfa

/-- A block whose smallest member is known. -/
structure LedBlock where
  /-- Number of the block in its partition. -/
  number : Nat
  /-- The smallest member. -/
  least : Row
  members : Block
  deriving DecidableEq

/-- The blocks of a partition with their numbers and smallest members. -/
def ledBlocks (p : Partition) : Checked (List LedBlock) :=
  p.zipIdx.mapM fun (members, number) =>
    match members with
    | [] => .error .emptyBlock
    | least :: _ => .ok ⟨number, least, members⟩

/-- The blocks that become states, in the order of their new numbers. -/
def liveBlocks (blocks : List LedBlock) (start dead : Nat) : List LedBlock :=
  blocks.filter (·.number = start) ++
    (blocks.filter fun b => b.number ≠ start ∧ b.number ≠ dead).mergeSort (·.least ≤ ·.least)

/-- The edges of a block, read off its smallest member. -/
def blockEdges (alphabet : Alphabet) (targets : List Nat) (live : List LedBlock) (dead : Nat) :
    SymbolMap StateId :=
  (alphabet.toList.zip targets).foldl (fun edges (c, target) =>
    if target = dead then edges
    else match live.findIdx? (·.number = target) with
      | some id => edges.put c id
      | none => edges) Ordered.empty

/-- The state that stands for a block. -/
def ofBlock (dfa : Dfa) (t : TransitionTable) (index : Array (Option Nat)) (live : List LedBlock)
    (dead : Nat) (block : LedBlock) : Checked DfaState := do
  let targets ← t.signature index block.least
  return {
    subset := .ofList (block.members.filter (· ≠ dfa.size))
    edges := blockEdges dfa.alphabet targets live dead
    isAccept := t.isAccept block.least }

/-- The automaton with the fewest states that accepts the same words. -/
def minimal (dfa : Dfa) : Checked Dfa := do
  let t := TransitionTable.ofDfa dfa
  let p ← t.stablePartition
  let index := p.index t.size
  let dead ← Partition.blockOf index dfa.size
  let start ← Partition.blockOf index dfa.start
  let live := liveBlocks (← ledBlocks p) start dead
  let states ← live.mapM (dfa.ofBlock t index live dead)
  return { states := states.toArray, start := 0, alphabet := dfa.alphabet }

end FiniteAutomata.Dfa
