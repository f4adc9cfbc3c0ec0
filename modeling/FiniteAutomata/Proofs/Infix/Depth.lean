import FiniteAutomata.Proofs.Infix.Grammar
import FiniteAutomata.Proofs.Nfa.Construction
/-!
# How many fragments a text leaves

What a reader has put out leaves one expression for each operator that waits, its left operand, and
one more behind an operand. So the builder takes the tokens of a text at whatever lexeme they are cut
(`feedAll_output`), and it takes all of them (`exists_nfa_of_tokens`).
-/

namespace FiniteAutomata.InfixText

open Nfa

variable {stack : List Pending} {s : List Lexeme} {out : List Token} {left : List Expression}

/-- Number of operators that wait. -/
def waiting (stack : List Pending) : Nat := stack.countP fun top => !top.isGroup

@[simp] theorem waiting_group (span : Span) : waiting (.group span :: stack) = waiting stack :=
  List.countP_cons_of_neg (by simp [Pending.isGroup])

@[simp] theorem waiting_operator (op : Binary) :
    waiting (.operator op :: stack) = waiting stack + 1 :=
  List.countP_cons_of_pos rfl

theorem reduce?_append_listing (h : Expression.reduce? [] out = some left) (e : Expression) :
    Expression.reduce? [] (out ++ e.listing) = some (e :: left) := by
  rw [Expression.reduce?_append, h]
  simpa [Expression.reduce?] using Expression.reduce?_listing e left []

/-- Every waiting operator has its left operand, and nothing else is left. -/
theorem Awaits.reduce? (h : Awaits stack s out) :
    ∃ left, Expression.reduce? [] out = some left ∧ left.length = waiting stack := by
  induction h with
  | start => exact ⟨[], rfl, rfl⟩
  | group _ _ ih => simpa using ih
  | operator _ _ _ _ ih =>
    obtain ⟨left, hleft, hlength⟩ := ih
    exact ⟨_, reduce?_append_listing hleft _, by simp [hlength]⟩

/-- One operand more is left behind an operand. -/
theorem Holds.reduce? {p : Nat} (h : Holds p stack s out) :
    ∃ left, Expression.reduce? [] out = some left ∧ left.length = waiting stack + 1 := by
  obtain ⟨s₀, t, out₀, e, before, _, _, rfl, rfl⟩ := h
  obtain ⟨left, hleft, hlength⟩ := before.reduce?
  exact ⟨_, reduce?_append_listing hleft e, by simp [hlength]⟩

theorem InStep.reduce? {r : Reader} (h : InStep r s) :
    ∃ left, Expression.reduce? [] r.output.toList = some left ∧
      left.length = waiting r.stack + if r.expectsOperand then 0 else 1 := by
  cases hexpects : r.expectsOperand with
  | true => exact (h.awaits hexpects).reduce?
  | false => exact (h.holds hexpects).reduce?

/-- **Depth.** However far a text is read, the builder takes what is put out so far. It is left with
as many fragments as operators wait, and with one more behind an operand. -/
theorem feedAll_output {text : String} {r : Reader} (hs : s <+: Lexeme.ofText text)
    (hr : s.foldlM Reader.feed Reader.start = .ok r) :
    ∃ b, Builder.empty.feedAll 0 r.output.toList = .ok b ∧
      b.stack.length = waiting r.stack + if r.expectsOperand then 0 else 1 := by
  have hstep := inStep_start.feedAll (fun l hl => readable_ofText text l (hs.subset hl)) hr
  obtain ⟨left, hleft, hlength⟩ := hstep.reduce?
  obtain ⟨b, hb, hstack⟩ := feedAll_of_reduce? hleft
  exact ⟨b, hb, hstack.trans hlength⟩

theorem exists_nfa_of_tokens {text : String} {ts : List Token} (h : tokens text = .ok ts) :
    ∃ nfa, Nfa.ofTokens ts = .ok nfa := by
  rcases tokens_eq_ok_iff.1 h with ⟨_, rfl⟩ | ⟨e, _, rfl⟩
  · exact ⟨_, rfl⟩
  · exact Nfa.ofTokens_listing e

end FiniteAutomata.InfixText
