import FiniteAutomata.BuildError
import FiniteAutomata.Nfa
/-!
# Automata from tokens

Tokens in postfix order build one automaton. A symbol makes a fragment of two states; an operator
takes the fragments made last, joins them by edges that read nothing, and leaves one fragment in
their place. All fragments share one array of states, numbered in the order they are made, and edges
are added to states of older fragments.
-/

namespace FiniteAutomata

/-- A part of an automaton with one way in and one way out. -/
structure Fragment where
  start : StateId
  accept : StateId
  deriving DecidableEq, Repr

namespace Nfa

/-- The states of an automaton under construction. -/
abbrev States := Array NfaState

namespace States

/-- Change the state of number `id`. -/
def update (states : States) (id : StateId) (f : NfaState → NfaState) : Checked States :=
  if h : id < states.size then .ok (states.set id (f states[id])) else .error (.unknownState id)

/-- A new state, and its number. -/
def add (states : States) : States × StateId := (states.push .empty, states.size)

/-- An edge that reads nothing. -/
def connect (states : States) (source target : StateId) : Checked States :=
  states.update source (·.addEpsilon target)

/-- Two new states with an edge that reads `c` between them. -/
def literal (states : States) (c : Char) : Checked (States × Fragment) := do
  let (states, start) := states.add
  let (states, accept) := states.add
  let states ← states.update start (·.addSymbol c accept)
  return (states, ⟨start, accept⟩)

/-- From the end of `a` on to the start of `b`; no state is new. -/
def concat (states : States) (a b : Fragment) : Checked (States × Fragment) := do
  let states ← states.connect a.accept b.start
  return (states, ⟨a.start, b.accept⟩)

/-- A new start that leads to both, and a new end that both lead to. -/
def union (states : States) (a b : Fragment) : Checked (States × Fragment) := do
  let (states, start) := states.add
  let (states, accept) := states.add
  let states ← states.connect start a.start
  let states ← states.connect start b.start
  let states ← states.connect a.accept accept
  let states ← states.connect b.accept accept
  return (states, ⟨start, accept⟩)

/-- A new start and a new end, a way around `a`, and a way back in it. -/
def star (states : States) (a : Fragment) : Checked (States × Fragment) := do
  let (states, start) := states.add
  let (states, accept) := states.add
  let states ← states.connect start a.start
  let states ← states.connect start accept
  let states ← states.connect a.accept a.start
  let states ← states.connect a.accept accept
  return (states, ⟨start, accept⟩)

/-- A new end, and a way back in `a`, which keeps its start. -/
def plus (states : States) (a : Fragment) : Checked (States × Fragment) := do
  let (states, accept) := states.add
  let states ← states.connect a.accept a.start
  let states ← states.connect a.accept accept
  return (states, ⟨a.start, accept⟩)

/-- Either `a` or a new state that is both start and end. -/
def optional (states : States) (a : Fragment) : Checked (States × Fragment) :=
  let (states, empty) := states.add
  states.union a ⟨empty, empty⟩

end States

/-- An automaton under construction: its states, and the fragments that no operator has taken yet,
the latest first. -/
structure Builder where
  states : States
  stack : List Fragment
  deriving DecidableEq

namespace Builder

/-- Before the first token. -/
def empty : Builder := ⟨#[], []⟩

/-- Put a new fragment in the place of those taken. -/
def push (rest : List Fragment) (made : Checked (States × Fragment)) : Except BuildError Builder :=
  match made with
  | .ok (states, fragment) => .ok ⟨states, fragment :: rest⟩
  | .error fault => .error (.fault fault)

/-- The automaton after one more token; `position` is the number of tokens before it. -/
def feed (b : Builder) (token : Token) (position : Nat) : Except BuildError Builder :=
  match token, b.stack with
  | .literal c, rest => push rest (b.states.literal c)
  | .concat, y :: x :: rest => push rest (b.states.concat x y)
  | .union, y :: x :: rest => push rest (b.states.union x y)
  | .star, x :: rest => push rest (b.states.star x)
  | .plus, x :: rest => push rest (b.states.plus x)
  | .optional, x :: rest => push rest (b.states.optional x)
  | token, stack => .error (.malformed (some token) position stack.length)

/-- The automaton after more tokens, `position` of them being before. -/
def feedAll (b : Builder) (position : Nat) : List Token → Except BuildError Builder
  | [] => .ok b
  | token :: rest => do (← b.feed token position).feedAll (position + 1) rest

/-- The finished automaton; the tokens must have left one fragment. -/
def finish (b : Builder) (count : Nat) : Except BuildError Nfa :=
  match b.stack with
  | [fragment] =>
    .ok { states := b.states, start := fragment.start, accept := Ordered.singleton fragment.accept }
  | stack => .error (.malformed none count stack.length)

end Builder

/-- The automaton of an empty expression: one state, without edges, in which the empty word is
accepted. -/
def emptyExpression : Nfa :=
  { states := #[.empty], start := 0, accept := Ordered.singleton 0, isEmptyExpression := true }

/-- The automaton of an expression in postfix order. -/
def ofTokens (tokens : List Token) : Except BuildError Nfa :=
  if tokens.isEmpty then .ok emptyExpression
  else do (← Builder.empty.feedAll 0 tokens).finish tokens.length

end Nfa

end FiniteAutomata
