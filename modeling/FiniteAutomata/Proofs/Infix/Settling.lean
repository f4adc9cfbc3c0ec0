import FiniteAutomata.Grammar
import FiniteAutomata.InfixText
/-!
# Settling operators

Precedences are the levels of the grammar: at level 1 an expression is a union, at level 2 a
concatenation, above that an operand with the operators behind it. `derives_operator` is the rule
of both binary operators: the left operand is at the level of the operator, the right one above it.

`settle op` takes the waiting operators down to those that bind looser than `op` (`settle_loose`),
and what is settled before a group is closed or the text ends changes neither
(`closeGroup_settle`, `settleAll_settle`).
-/

namespace FiniteAutomata

/-! ## Levels of the grammar -/

namespace Grammar

/-- The rank of the expressions of a precedence; there is none looser than a union. -/
def Rank.ofLevel : Nat → Rank
  | 0 | 1 => .union
  | 2 => .concat
  | _ => .repetition

theorem Derives.lower {s : List Lexeme} {e : Expression} {p q : Nat}
    (h : Derives (.ofLevel p) s e) (hq : q ≤ p) : Derives (.ofLevel q) s e := by
  have step : ∀ n, Derives (.ofLevel (n + 1)) s e → Derives (.ofLevel n) s e := by
    intro n hn
    match n with
    | 0 => exact hn
    | 1 => exact .ofConcat hn
    | 2 => exact .ofRepetition hn
    | _ + 3 => exact hn
  induction hq with
  | refl => exact h
  | step _ ih => exact ih (step _ h)

end Grammar

namespace InfixText

open Grammar

namespace Binary

/-- The expression of two operands. -/
def apply : Binary → Expression → Expression → Expression
  | union => .union
  | concat => .concat

/-- How an operator is written between its operands. -/
inductive Written : Binary → List Lexeme → Prop where
  | bar {l : Lexeme} (isBar : l.kind = .bar) : Written union [l]
  | dot {l : Lexeme} (isDot : l.kind = .dot) : Written concat [l]
  | juxtaposed : Written concat []

theorem precedence_lt_three (op : Binary) : op.precedence < 3 := by
  cases op <;> decide

theorem listing_apply (op : Binary) (e f : Expression) :
    (op.apply e f).listing = e.listing ++ f.listing ++ [op.token] := by
  cases op <;> rfl

end Binary

/-- **Both binary operators.** The left operand is at the level of the operator, the right one
above it. -/
theorem derives_operator {op : Binary} {s sign t : List Lexeme} {e f : Expression}
    (left : Derives (.ofLevel op.precedence) s e) (sign_written : op.Written sign)
    (right : Derives (.ofLevel (op.precedence + 1)) t f) :
    Derives (.ofLevel op.precedence) (s ++ sign ++ t) (op.apply e f) := by
  rw [List.append_assoc]
  cases sign_written with
  | bar isBar => exact Derives.union left isBar right
  | dot isDot => exact Derives.concat left isDot right
  | juxtaposed => exact Derives.juxtaposed left right

/-! ## What is left waiting -/

/-- An operator that waits on top of the stack binds looser than level `p`. -/
def Loose (p : Nat) (stack : List Pending) : Prop :=
  ∀ op ∈ stack.head?, ∀ b, op = .operator b → b.precedence < p

theorem loose_nil (p : Nat) : Loose p [] := by
  intro op hop
  cases hop

theorem loose_group (p : Nat) (span : Span) (stack : List Pending) : Loose p (.group span :: stack) := by
  intro op hop b hb
  cases hop
  cases hb

theorem loose_operator {p : Nat} {op : Binary} {stack : List Pending} :
    Loose p (.operator op :: stack) ↔ op.precedence < p := by
  constructor
  · intro h
    exact h _ rfl op rfl
  · intro h top htop b hb
    cases htop
    cases hb
    exact h

theorem loose_three (stack : List Pending) : Loose 3 stack := by
  intro op _ b _
  exact b.precedence_lt_three

namespace Reader

/-- What binds looser stays as it is. -/
theorem settle_of_loose {op : Binary} {output : Array Token} {stack : List Pending}
    (h : Loose op.precedence stack) : settle op output stack = (output, stack) := by
  match stack with
  | [] => rfl
  | .group _ :: _ => rfl
  | .operator top :: _ =>
    unfold settle
    rw [if_pos (loose_operator.1 h)]

theorem settle_cons {op top : Binary} {output : Array Token} {stack : List Pending}
    (h : op.precedence ≤ top.precedence) :
    settle op output (.operator top :: stack) = settle op (output.push top.token) stack := by
  rw [settle, if_neg (Nat.not_lt.2 h)]

/-- After settling, only looser operators wait on top. -/
theorem settle_loose (op : Binary) (output : Array Token) (stack : List Pending) :
    Loose op.precedence (settle op output stack).2 := by
  induction stack generalizing output with
  | nil => exact loose_nil _
  | cons top stack ih =>
    cases top with
    | group span => exact loose_group _ span stack
    | operator top =>
      by_cases h : top.precedence < op.precedence
      · rw [settle_of_loose (loose_operator.2 h)]
        exact loose_operator.2 h
      · rw [settle_cons (Nat.not_lt.1 h)]
        exact ih _

/-- Settling for a union after settling for a concatenation is settling for a union. -/
theorem settle_settle (op op' : Binary) (h : op.precedence ≤ op'.precedence) (output : Array Token)
    (stack : List Pending) :
    settle op (settle op' output stack).1 (settle op' output stack).2 = settle op output stack := by
  induction stack generalizing output with
  | nil => rfl
  | cons top stack ih =>
    cases top with
    | group span => rfl
    | operator top =>
      by_cases hop : top.precedence < op'.precedence
      · rw [settle_of_loose (loose_operator.2 hop)]
      · rw [settle_cons (Nat.not_lt.1 hop), settle_cons (Nat.le_trans h (Nat.not_lt.1 hop))]
        exact ih _

/-- What does not tell a waiting operator from a settled one does not notice that some are settled. -/
theorem settle_invariant {α : Type} (F : Array Token → List Pending → α)
    (hF : ∀ output top stack, F output (.operator top :: stack) = F (output.push top.token) stack)
    (op : Binary) (output : Array Token) (stack : List Pending) :
    F (settle op output stack).1 (settle op output stack).2 = F output stack := by
  induction stack generalizing output with
  | nil => rfl
  | cons top stack ih =>
    cases top with
    | group span => rfl
    | operator top =>
      by_cases h : top.precedence < op.precedence
      · rw [settle_of_loose (loose_operator.2 h)]
      · rw [settle_cons (Nat.not_lt.1 h), hF]
        exact ih _

theorem closeGroup_settle (op : Binary) (output : Array Token) (stack : List Pending) :
    closeGroup (settle op output stack).1 (settle op output stack).2 = closeGroup output stack :=
  settle_invariant closeGroup (fun _ _ _ => rfl) op output stack

theorem settleAll_settle (op : Binary) (output : Array Token) (stack : List Pending) :
    settleAll (settle op output stack).1 (settle op output stack).2 = settleAll output stack :=
  settle_invariant settleAll (fun _ _ _ => rfl) op output stack

theorem any_isGroup_settle (op : Binary) (output : Array Token) (stack : List Pending) :
    (settle op output stack).2.any Pending.isGroup = stack.any Pending.isGroup :=
  settle_invariant (fun _ stack => stack.any Pending.isGroup) (fun _ _ _ => rfl) op output stack

/-- With nothing looser than a union, an open group or nothing at all is on top. -/
theorem loose_union_cases {stack : List Pending} (h : Loose Binary.union.precedence stack) :
    stack = [] ∨ ∃ span rest, stack = .group span :: rest := by
  match stack with
  | [] => exact Or.inl rfl
  | .group span :: rest => exact Or.inr ⟨span, rest, rfl⟩
  | .operator op :: rest =>
    have hop := loose_operator.1 h
    cases op <;> exact absurd hop (by decide)

end Reader

end InfixText

end FiniteAutomata
