import FiniteAutomata.Proofs.Infix.Settling
/-!
# Derivations in the middle of a text

A reader that has read some lexemes stands in an unfinished derivation of them. `Awaits` describes it
where an operand comes next: each open group and each waiting operator is accounted for, an operator
with the operand on its left. `Holds` describes it right behind an operand.

Main statement: every lexeme that a reader takes keeps it in step with such a derivation
(`InStep.feed`), so what it gives at the end is the listing of a derived expression
(`InStep.finish`).
-/

namespace FiniteAutomata.InfixText

open Grammar

/-- Lexemes that leave an operand to come, with what they leave waiting and what they settle. -/
inductive Awaits : List Pending → List Lexeme → List Token → Prop where
  | start : Awaits [] [] []
  | group {stack : List Pending} {s : List Lexeme} {out : List Token} {l : Lexeme}
    (before : Awaits stack s out) (isOpening : l.kind = .openGroup) :
    Awaits (.group l.span :: stack) (s ++ [l]) out
  | operator {stack : List Pending} {s t sign : List Lexeme} {out : List Token} {op : Binary}
    {e : Expression} (before : Awaits stack s out) (loose : Loose op.precedence stack)
    (left : Derives (.ofLevel op.precedence) t e) (written : op.Written sign) :
    Awaits (.operator op :: stack) (s ++ t ++ sign) (out ++ e.listing)

/-- Lexemes that end with an operand of level `p`, before which only looser operators wait. -/
def Holds (p : Nat) (stack : List Pending) (s : List Lexeme) (out : List Token) : Prop :=
  ∃ s₀ t out₀ e, Awaits stack s₀ out₀ ∧ Loose p stack ∧ Derives (.ofLevel p) t e ∧
    s = s₀ ++ t ∧ out = out₀ ++ e.listing

theorem Holds.intro {p : Nat} {stack : List Pending} {s t : List Lexeme} {out : List Token}
    {e : Expression} (before : Awaits stack s out) (loose : Loose p stack)
    (operand : Derives (.ofLevel p) t e) : Holds p stack (s ++ t) (out ++ e.listing) :=
  ⟨s, t, out, e, before, loose, operand, rfl, rfl⟩

/-- An operand of a level is one of every lower level that the stack allows. -/
theorem Holds.lower {p q : Nat} {stack : List Pending} {s : List Lexeme} {out : List Token}
    (h : Holds p stack s out) (hq : q ≤ p) (loose : Loose q stack) : Holds q stack s out := by
  obtain ⟨s₀, t, out₀, e, before, _, operand, rfl, rfl⟩ := h
  exact .intro before loose (operand.lower hq)

theorem Holds.apply {p : Nat} {op : Binary} {stack : List Pending} {s : List Lexeme}
    {out : List Token} (h : Holds p (.operator op :: stack) s out) :
    Holds op.precedence stack s (out ++ [op.token]) := by
  obtain ⟨s₀, t, out₀, e, before, loose, operand, rfl, rfl⟩ := h
  have hp : op.precedence + 1 ≤ p := loose_operator.1 loose
  cases before with
  | operator before loose left written =>
    have key := Holds.intro before loose (derives_operator left written (operand.lower hp))
    rw [Binary.listing_apply] at key
    simpa only [List.append_assoc] using key

/-- Settling for `op` leaves one operand of the level of `op`. -/
theorem Holds.settle {p : Nat} (op : Binary) {output : Array Token} {stack : List Pending}
    {s : List Lexeme} (h : Holds p stack s output.toList) (hp : op.precedence ≤ p) :
    Holds op.precedence (Reader.settle op output stack).2 s
      (Reader.settle op output stack).1.toList := by
  induction stack generalizing output p with
  | nil => exact h.lower hp (loose_nil _)
  | cons top stack ih =>
    cases top with
    | group span => exact h.lower hp (loose_group _ span stack)
    | operator top =>
      by_cases hlt : top.precedence < op.precedence
      · rw [Reader.settle_of_loose (loose_operator.2 hlt)]
        exact h.lower hp (loose_operator.2 hlt)
      · rw [Reader.settle_cons (Nat.not_lt.1 hlt)]
        apply ih _ (Nat.not_lt.1 hlt)
        rw [Array.toList_push]
        exact h.apply

/-! ## Readers -/

/-- Lexemes that mean something: no white space, and symbols where there should be one. -/
structure Readable (l : Lexeme) : Prop where
  ne_blank : l.kind ≠ .blank
  symbol : l.kind = .literal ∨ l.kind = .escape → ∃ c, l.symbol? = some c

/-- The reader is where the lexemes lead. -/
structure InStep (r : Reader) (s : List Lexeme) : Prop where
  last : r.last? = none → s = []
  awaits : r.expectsOperand = true → Awaits r.stack s r.output.toList
  holds : r.expectsOperand = false → Holds 3 r.stack s r.output.toList

theorem inStep_start : InStep Reader.start [] where
  last _ := rfl
  awaits _ := .start
  holds h := Bool.noConfusion h

/-- An operator that comes behind an operand awaits another one. -/
theorem Holds.pushBinary {r : Reader} {op : Binary} {s sign : List Lexeme}
    (h : Holds 3 r.stack s r.output.toList) (written : op.Written sign) :
    Awaits (Reader.pushBinary op r).stack (s ++ sign) (Reader.pushBinary op r).output.toList := by
  obtain ⟨s₀, t, out₀, e, before, loose, operand, hs, hout⟩ :=
    h.settle op (Nat.le_of_lt op.precedence_lt_three)
  show Awaits (.operator op :: (Reader.settle op r.output r.stack).2) (s ++ sign)
    (Reader.settle op r.output r.stack).1.toList
  rw [hs, hout]
  exact .operator before loose operand written

namespace InStep

variable {r r' : Reader} {s : List Lexeme} {l : Lexeme}

theorem juxtapose (h : InStep r s) : Awaits r.juxtapose.stack s r.juxtapose.output.toList := by
  unfold Reader.juxtapose
  by_cases he : r.expectsOperand = true
  · rw [if_pos he]
    exact h.awaits he
  · rw [if_neg he]
    simpa using (h.holds (Bool.eq_false_iff.2 he)).pushBinary .juxtaposed

theorem symbol {c : Char} (h : InStep r s) (hl : l.symbol? = some c) :
    InStep (Reader.pushSymbol l r.juxtapose) (s ++ [l]) where
  last hlast := Option.noConfusion rfl (heq_of_eq hlast)
  awaits he := Bool.noConfusion he
  holds _ := by
    have key := Holds.intro h.juxtapose (loose_three _) (Derives.ofAtom (.symbol hl))
    unfold Reader.pushSymbol
    simpa [hl, Expression.listing] using key

theorem openGroup (h : InStep r s) (hl : l.kind = .openGroup) :
    InStep { r.juxtapose with stack := .group l.span :: r.juxtapose.stack, expectsOperand := true,
                              last? := some l } (s ++ [l]) where
  last hlast := Option.noConfusion rfl (heq_of_eq hlast)
  awaits _ := .group h.juxtapose hl
  holds he := Bool.noConfusion he

theorem binary {op : Binary} (h : InStep r s) (hl : op.Written [l]) (hr : r.binary l op = .ok r') :
    InStep r' (s ++ [l]) := by
  unfold Reader.binary at hr
  by_cases he : r.expectsOperand = true
  · rw [if_pos he] at hr
    cases hr
  · rw [if_neg he] at hr
    cases hr
    exact {
      last := fun hlast => Option.noConfusion rfl (heq_of_eq hlast)
      awaits := fun _ => (h.holds (Bool.eq_false_iff.2 he)).pushBinary hl
      holds := fun he => Bool.noConfusion he }

theorem repetition {token : Token} {f : Expression → Expression} (h : InStep r s)
    (rule : ∀ {t e}, Derives .repetition t e → Derives .repetition (t ++ [l]) (f e))
    (listing : ∀ e, (f e).listing = e.listing ++ [token]) (hr : r.repetition l token = .ok r') :
    InStep r' (s ++ [l]) := by
  unfold Reader.repetition at hr
  by_cases he : r.expectsOperand = true
  · rw [if_pos he] at hr
    cases hr
  · rw [if_neg he] at hr
    cases hr
    refine ⟨fun hlast => Option.noConfusion rfl (heq_of_eq hlast), fun h => absurd h he, fun _ => ?_⟩
    obtain ⟨s₀, t, out₀, e, before, loose, operand, hs, hout⟩ := h.holds (Bool.eq_false_iff.2 he)
    have key := Holds.intro before loose (rule operand)
    rw [listing] at key
    simpa [hs, hout] using key

theorem closeGroup (h : InStep r s) (he : r.expectsOperand = false)
    (hopen : r.stack.any Pending.isGroup = true) (hl : l.kind = .closeGroup) :
    Holds 3 (Reader.closeGroup r.output r.stack).2 (s ++ [l])
      (Reader.closeGroup r.output r.stack).1.toList := by
  have hs := (h.holds he).settle .union (by decide)
  have hloose := Reader.settle_loose .union r.output r.stack
  rw [← Reader.any_isGroup_settle .union r.output] at hopen
  rw [← Reader.closeGroup_settle .union]
  generalize Reader.settle .union r.output r.stack = settled at hs hloose hopen
  obtain ⟨output, stack⟩ := settled
  rcases Reader.loose_union_cases hloose with rfl | ⟨span, rest, rfl⟩
  · cases hopen
  · obtain ⟨s₀, t, out₀, e, before, _, operand, rfl, hout⟩ := hs
    cases before with
    | group before isOpening =>
      have key := Holds.intro before (loose_three _)
        (Derives.ofAtom (.group isOpening hl operand))
      show Holds 3 rest _ output.toList
      rw [show output.toList = out₀ ++ e.listing from hout]
      simpa using key

/-- **One lexeme.** A reader that takes a lexeme is where it leads. -/
theorem feed (h : InStep r s) (hl : Readable l) (hr : r.feed l = .ok r') : InStep r' (s ++ [l]) := by
  unfold Reader.feed at hr
  cases hk : l.kind <;> simp only [hk] at hr
  case openGroup =>
    cases hr
    exact h.openGroup hk
  case closeGroup =>
    split at hr
    · cases hr
    · rename_i hopen
      split at hr
      · cases hr
      · rename_i he
        cases hr
        exact {
          last := fun hlast => Option.noConfusion rfl (heq_of_eq hlast)
          awaits := fun he => Bool.noConfusion he
          holds := fun _ => h.closeGroup (Bool.eq_false_iff.2 he) (by simpa using hopen) hk }
  case bar => exact h.binary (.bar hk) hr
  case dot => exact h.binary (.dot hk) hr
  case star => exact h.repetition (fun d => d.star hk) (fun _ => rfl) hr
  case plus => exact h.repetition (fun d => d.plus hk) (fun _ => rfl) hr
  case question => exact h.repetition (fun d => d.optional hk) (fun _ => rfl) hr
  case escape =>
    obtain ⟨c, hc⟩ := hl.symbol (Or.inr hk)
    cases hr
    exact h.symbol hc
  case literal =>
    obtain ⟨c, hc⟩ := hl.symbol (Or.inl hk)
    cases hr
    exact h.symbol hc
  case backslash => cases hr
  case blank => exact absurd hk hl.ne_blank
  case junk => cases hr

theorem feedAll {t : List Lexeme} (h : InStep r s) (ht : ∀ l ∈ t, Readable l)
    (hr : t.foldlM Reader.feed r = .ok r') : InStep r' (s ++ t) := by
  induction t generalizing r s with
  | nil =>
    cases hr
    simpa using h
  | cons l t ih =>
    rw [List.foldlM_cons] at hr
    cases hl : r.feed l with
    | error e =>
      rw [hl] at hr
      cases hr
    | ok next =>
      rw [hl] at hr
      have key := ih (h.feed (ht l List.mem_cons_self) hl)
        (fun m hm => ht m (List.mem_cons_of_mem l hm)) hr
      simpa using key

/-- **The end.** The tokens that a reader gives list an expression derived from the lexemes, if there
are any. -/
theorem finish {tokens : List Token} (h : InStep r s) (hr : r.finish = .ok tokens) (hs : s ≠ []) :
    ∃ e, Derives .union s e ∧ e.listing = tokens := by
  unfold Reader.finish at hr
  cases hlast : r.last? with
  | none => exact absurd (h.last hlast) hs
  | some l =>
    simp only [hlast] at hr
    by_cases he : r.expectsOperand = true
    · rw [if_pos he] at hr
      split at hr <;> cases hr
    · rw [if_neg he] at hr
      have hsettled := (h.holds (Bool.eq_false_iff.2 he)).settle .union (by decide)
      have hloose := Reader.settle_loose .union r.output r.stack
      rw [← Reader.settleAll_settle .union] at hr
      generalize Reader.settle .union r.output r.stack = settled at hsettled hloose hr
      obtain ⟨output, stack⟩ := settled
      rcases Reader.loose_union_cases hloose with rfl | ⟨span, rest, rfl⟩
      · obtain ⟨s₀, t, out₀, e, before, _, operand, rfl, hout⟩ := hsettled
        cases before
        cases hr
        exact ⟨e, operand, by simpa using hout.symm⟩
      · cases hr

end InStep

end FiniteAutomata.InfixText
