import FiniteAutomata.Proofs.Infix.Settling
import FiniteAutomata.Proofs.Returns
import Mathlib.Data.List.Induction
/-!
# What the causes of failure say of the lexemes

A reader that has taken some lexemes knows the last of them, expects an operand exactly at the start
and behind a lexeme that asks for one, and holds the groups that these lexemes leave open
(`Reader.Follows`). Every lexeme that it takes keeps this so (`Reader.Follows.feed`).

Main statement: a cause for which lexemes are not read is true of them (`blames_of_ofLexemes`).
-/

namespace FiniteAutomata

/-- The kinds of the operators. -/
def LexemeKind.IsOperator (kind : LexemeKind) : Prop := kind ∈ [bar, dot, star, plus, question]

instance : DecidablePred LexemeKind.IsOperator := fun kind => by
  unfold LexemeKind.IsOperator
  infer_instance

/-- Whether an operand has to come behind a lexeme of this kind. -/
def LexemeKind.asksOperand : LexemeKind → Bool
  | openGroup | bar | dot => true
  | _ => false

/-- The open groups behind a lexeme of this kind, the innermost first. -/
def LexemeKind.groupsBehind (groups : List Span) (span : Span) : LexemeKind → List Span
  | openGroup => span :: groups
  | closeGroup => groups.tail
  | _ => groups

namespace InfixText

variable {before after lexemes : List Lexeme} {l : Lexeme} {r r' : Reader} {cause : SyntaxError}

/-! ## Open groups -/

/-- The spans of the `(` of the groups that lexemes leave open, the innermost first. -/
def openGroups (lexemes : List Lexeme) : List Span :=
  lexemes.foldl (fun groups l => l.kind.groupsBehind groups l.span) []

theorem openGroups_concat (before : List Lexeme) (l : Lexeme) :
    openGroups (before ++ [l]) = l.kind.groupsBehind (openGroups before) l.span := by
  unfold openGroups
  rw [List.foldl_append]
  rfl

theorem exists_of_mem_openGroups {span : Span} (h : span ∈ openGroups lexemes) :
    ∃ l ∈ lexemes, l.kind = .openGroup ∧ l.span = span := by
  induction lexemes using List.reverseRecOn with
  | nil => cases h
  | append_singleton before m ih =>
    rw [openGroups_concat] at h
    have hbefore : span ∈ openGroups before → ∃ l ∈ before ++ [m], l.kind = .openGroup ∧ l.span = span := by
      intro h
      obtain ⟨l, hl, hopen⟩ := ih h
      exact ⟨l, List.mem_append_left _ hl, hopen⟩
    cases hkind : m.kind <;> rw [hkind] at h
    case openGroup =>
      rcases List.mem_cons.1 h with rfl | h
      · exact ⟨m, by simp, hkind, rfl⟩
      · exact hbefore h
    case closeGroup => exact hbefore (List.mem_of_mem_tail h)
    all_goals exact hbefore h

/-- The span of an open group. -/
def Pending.span? : Pending → Option Span
  | group span => some span
  | operator _ => none

namespace Reader

/-- The open groups among what waits, the innermost first. -/
def groups (stack : List Pending) : List Span := stack.filterMap Pending.span?

theorem groups_settle (op : Binary) (output : Array Token) (stack : List Pending) :
    groups (settle op output stack).2 = groups stack :=
  settle_invariant (fun _ stack => groups stack) (fun _ _ _ => rfl) op output stack

theorem groups_juxtapose (r : Reader) : groups r.juxtapose.stack = groups r.stack := by
  unfold juxtapose
  split
  · rfl
  · exact groups_settle .concat r.output r.stack

theorem groups_closeGroup (output : Array Token) (stack : List Pending) :
    groups (closeGroup output stack).2 = (groups stack).tail := by
  induction stack generalizing output with
  | nil => rfl
  | cons top stack ih =>
    cases top with
    | group span => rfl
    | operator op => exact ih _

theorem groups_eq_nil_iff (stack : List Pending) :
    groups stack = [] ↔ stack.any Pending.isGroup = false := by
  induction stack with
  | nil => exact ⟨fun _ => rfl, fun _ => rfl⟩
  | cons top stack ih =>
    cases top with
    | group span =>
      constructor
      · intro h
        cases h
      · intro h
        cases h
    | operator op => exact ih

/-- What waits cannot be settled while a group is open. -/
theorem head?_groups_of_settleAll {output : Array Token} {stack : List Pending}
    (h : settleAll output stack = .error cause) :
    ∃ span, cause = .unclosedGroup span ∧ (groups stack).head? = some span := by
  induction stack generalizing output with
  | nil => cases h
  | cons top stack ih =>
    cases top with
    | group span =>
      cases h
      exact ⟨span, rfl, rfl⟩
    | operator op => exact ih h

/-! ## Readers and the lexemes they took -/

/-- The reader is where the lexemes lead. -/
structure Follows (r : Reader) (before : List Lexeme) : Prop where
  last : r.last? = before.getLast?
  expects : r.expectsOperand = before.getLast?.all (·.kind.asksOperand)
  groups : groups r.stack = openGroups before

theorem follows_start : start.Follows [] := ⟨rfl, rfl, rfl⟩

namespace Follows

theorem concat {kind : LexemeKind} (h : r.Follows before) (hkind : l.kind = kind)
    (hlast : r'.last? = some l) (hexpects : r'.expectsOperand = kind.asksOperand)
    (hgroups : Reader.groups r'.stack = kind.groupsBehind (Reader.groups r.stack) l.span) :
    r'.Follows (before ++ [l]) := by
  subst hkind
  constructor
  case last => rw [hlast, List.getLast?_concat]
  case expects => rw [hexpects, List.getLast?_concat, Option.all_some]
  case groups => rw [hgroups, openGroups_concat, h.groups]

theorem binary {op : Binary} (h : r.Follows before) (hkind : l.kind = .bar ∨ l.kind = .dot)
    (hr : r.binary l op = .ok r') : r'.Follows (before ++ [l]) := by
  unfold Reader.binary at hr
  split at hr
  · cases hr
  · cases hr
    rcases hkind with hk | hk
    · exact h.concat hk rfl rfl (groups_settle op r.output r.stack)
    · exact h.concat hk rfl rfl (groups_settle op r.output r.stack)

theorem repetition {token : Token} (h : r.Follows before)
    (hkind : l.kind = .star ∨ l.kind = .plus ∨ l.kind = .question)
    (hr : r.repetition l token = .ok r') : r'.Follows (before ++ [l]) := by
  unfold Reader.repetition at hr
  split at hr
  · cases hr
  · rename_i hexpects
    cases hr
    have hfalse : r.expectsOperand = false := Bool.eq_false_iff.2 hexpects
    rcases hkind with hk | hk | hk
    · exact h.concat hk rfl hfalse rfl
    · exact h.concat hk rfl hfalse rfl
    · exact h.concat hk rfl hfalse rfl

/-- **One lexeme.** A reader that takes a lexeme is where it leads. -/
theorem feed (h : r.Follows before) (hl : l.kind ≠ .blank) (hr : r.feed l = .ok r') :
    r'.Follows (before ++ [l]) := by
  unfold Reader.feed at hr
  cases hk : l.kind <;> simp only [hk] at hr
  case literal | escape =>
    cases hr
    exact h.concat hk rfl rfl (groups_juxtapose r)
  case openGroup =>
    cases hr
    exact h.concat hk rfl rfl (congrArg (l.span :: ·) (groups_juxtapose r))
  case closeGroup =>
    split at hr
    · cases hr
    · split at hr
      · cases hr
      · cases hr
        exact h.concat hk rfl rfl (groups_closeGroup r.output r.stack)
  case bar => exact h.binary (Or.inl hk) hr
  case dot => exact h.binary (Or.inr hk) hr
  case star => exact h.repetition (Or.inl hk) hr
  case plus => exact h.repetition (Or.inr (Or.inl hk)) hr
  case question => exact h.repetition (Or.inr (Or.inr hk)) hr
  case backslash | junk => cases hr
  case blank => exact absurd hk hl

end Follows

end Reader

/-! ## Causes -/

/-- What the cause says is so of the lexemes. -/
inductive Blames (lexemes : List Lexeme) : SyntaxError → Prop where
  | missingOperand {l : Lexeme} (mem : l ∈ lexemes) (isOperator : l.kind.IsOperator) :
    Blames lexemes (.missingOperand l.first l.span)
  | unopenedGroup {before after : List Lexeme} {l : Lexeme} (split : lexemes = before ++ l :: after)
    (isClosing : l.kind = .closeGroup) (noneOpen : openGroups before = []) :
    Blames lexemes (.unopenedGroup l.span)
  | emptyGroup {before after : List Lexeme} {l m : Lexeme}
    (split : lexemes = before ++ l :: m :: after) (isOpening : l.kind = .openGroup)
    (isClosing : m.kind = .closeGroup) : Blames lexemes (.emptyGroup ⟨l.span.start, m.span.stop⟩)
  | unclosedGroup {span : Span} (innermost : (openGroups lexemes).head? = some span) :
    Blames lexemes (.unclosedGroup span)
  | unexpectedChar {l : Lexeme} (mem : l ∈ lexemes) (isJunk : l.kind = .junk) :
    Blames lexemes (.unexpectedChar l.first l.span)
  | trailingEscape {l : Lexeme} (mem : l ∈ lexemes) (isBackslash : l.kind = .backslash) :
    Blames lexemes (.trailingEscape l.span)

namespace Reader.Follows

theorem mem_of_last {m : Lexeme} (h : r.Follows before) (hm : r.last? = some m) (t : List Lexeme) :
    m ∈ before ++ t := by
  rw [h.last] at hm
  exact List.mem_append_left _ (List.mem_of_getLast? hm)

theorem asksOperand_of_last {m : Lexeme} (h : r.Follows before) (hm : r.last? = some m)
    (hexpects : r.expectsOperand = true) : m.kind = .openGroup ∨ m.kind = .bar ∨ m.kind = .dot := by
  have hasks := h.expects
  rw [hexpects, ← h.last, hm, Option.all_some] at hasks
  revert hasks
  cases m.kind <;> simp [LexemeKind.asksOperand]

/-- An operand that does not come is missed by an operator, or it is the inside of a group. -/
theorem blames_missingOperand (h : r.Follows before) (hexpects : r.expectsOperand = true)
    (hl : l.kind.IsOperator ∨ l.kind = .closeGroup ∧ r.last? ≠ none) :
    Blames (before ++ l :: after) (r.missingOperand l) := by
  -- the cases are those of the definition; what none of them blames is the inside of a group
  unfold Reader.missingOperand
  cases hlast : r.last? with
  | none =>
    refine .missingOperand (by simp) (hl.resolve_right ?_)
    rintro ⟨_, hne⟩
    exact hne hlast
  | some m =>
    have hasks := h.asksOperand_of_last hlast hexpects
    dsimp only
    split
    · rename_i hgroup
      obtain ⟨init, rfl⟩ := List.getLast?_eq_some_iff.1 (h.last.symm.trans hlast)
      exact .emptyGroup (show _ = init ++ m :: l :: after by simp) hgroup.1 hgroup.2
    · rename_i hgroup
      split
      · rename_i hbinary
        refine .missingOperand (h.mem_of_last hlast _) ?_
        rcases hbinary with hk | hk <;> rw [hk] <;> decide
      · rename_i hbinary
        have hopen : m.kind = .openGroup := hasks.resolve_right hbinary
        exact .missingOperand (by simp) (hl.resolve_right fun hclose => hgroup ⟨hopen, hclose.1⟩)

theorem blames_of_feed (h : r.Follows before) (hr : r.feed l = .error cause) :
    Blames (before ++ l :: after) cause := by
  have hmem : l ∈ before ++ l :: after := by simp
  unfold Reader.feed at hr
  cases hk : l.kind <;> simp only [hk] at hr
  case literal | escape | openGroup | blank => cases hr
  case closeGroup =>
    split at hr
    · rename_i hnone
      cases hr
      refine .unopenedGroup rfl hk ?_
      rw [← h.groups, groups_eq_nil_iff]
      simpa using hnone
    · rename_i hsome
      split at hr
      · rename_i hexpects
        cases hr
        refine h.blames_missingOperand hexpects (Or.inr ⟨hk, fun hlast => hsome ?_⟩)
        have hnil : before = [] := by simpa [h.last] using hlast
        have hgroups := h.groups
        rw [hnil] at hgroups
        simpa using (groups_eq_nil_iff _).1 hgroups
      · cases hr
  case bar | dot =>
    unfold Reader.binary at hr
    split at hr
    · rename_i hexpects
      cases hr
      exact h.blames_missingOperand hexpects (Or.inl (by rw [hk]; decide))
    · cases hr
  case star | plus | question =>
    unfold Reader.repetition at hr
    split at hr
    · cases hr
      exact .missingOperand hmem (by rw [hk]; decide)
    · cases hr
  case backslash =>
    cases hr
    exact .trailingEscape hmem hk
  case junk =>
    cases hr
    exact .unexpectedChar hmem hk

theorem blames_of_finish (h : r.Follows lexemes) (hr : r.finish = .error cause) :
    Blames lexemes cause := by
  unfold Reader.finish at hr
  cases hlast : r.last? with
  | none =>
    rw [hlast] at hr
    cases hr
  | some l =>
    rw [hlast] at hr
    dsimp only at hr
    split at hr
    · rename_i hexpects
      have hasks := h.asksOperand_of_last hlast hexpects
      split at hr
      · rename_i hopen
        cases hr
        refine .unclosedGroup ?_
        obtain ⟨init, rfl⟩ := List.getLast?_eq_some_iff.1 (h.last.symm.trans hlast)
        rw [openGroups_concat, hopen]
        rfl
      · rename_i hopen
        cases hr
        have hmem : l ∈ lexemes := by simpa using h.mem_of_last hlast []
        refine .missingOperand hmem ?_
        rcases hasks.resolve_left hopen with hk | hk <;> rw [hk] <;> decide
    · cases hsettle : settleAll r.output r.stack with
      | ok output =>
        rw [hsettle] at hr
        cases hr
      | error e =>
        rw [hsettle] at hr
        cases hr
        obtain ⟨span, rfl, hspan⟩ := head?_groups_of_settleAll hsettle
        exact .unclosedGroup (by rw [← h.groups, hspan])

/-- **All lexemes.** A cause is true of the lexemes taken before and those still to come. -/
theorem blames_of_feedAll {t : List Lexeme} (h : r.Follows before) (ht : ∀ l ∈ t, l.kind ≠ .blank)
    (hr : (t.foldlM Reader.feed r >>= Reader.finish) = .error cause) : Blames (before ++ t) cause := by
  induction t generalizing r before with
  | nil =>
    rw [List.append_nil]
    exact h.blames_of_finish hr
  | cons l t ih =>
    obtain ⟨hl, ht⟩ := List.forall_mem_cons.1 ht
    rw [List.foldlM_cons] at hr
    cases hfeed : r.feed l with
    | error e =>
      rw [hfeed] at hr
      cases hr
      exact h.blames_of_feed hfeed
    | ok next =>
      rw [hfeed] at hr
      have key := ih (h.feed hl hfeed) ht hr
      rwa [List.append_assoc] at key

end Reader.Follows

/-- **Causes are true.** What the cause for which lexemes are not read says of them is so. -/
theorem blames_of_ofLexemes (hs : ∀ l ∈ lexemes, l.kind ≠ .blank)
    (h : ofLexemes lexemes = .error cause) : Blames lexemes cause :=
  Reader.follows_start.blames_of_feedAll hs h

end InfixText

end FiniteAutomata
