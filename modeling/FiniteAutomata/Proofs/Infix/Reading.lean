import FiniteAutomata.Proofs.Infix.PartialDerivation
/-!
# Derived lexemes are read

What a reader does with the lexemes of an expression, whatever it has read before. An operand is
settled as a whole behind what the reader settles first to make room for it. A concatenation or a
union may leave operators waiting, but once these are settled the stack is as it was and the listing
of the expression has been put out.

Main statement: the lexemes of a derivation are read so (`reads_of_derives`), rule by rule.
-/

namespace FiniteAutomata.InfixText

open Grammar

/-- Read as an operand, wherever one may come. -/
def ReadsOperand (s : List Lexeme) (e : Expression) : Prop :=
  ∀ r : Reader, ∃ r', s.foldlM Reader.feed r = .ok r' ∧ r'.expectsOperand = false ∧
    r'.output = r.juxtapose.output ++ e.listing.toArray ∧ r'.stack = r.juxtapose.stack

/-- Read as an expression of the level of `op`, where nothing that binds as tightly waits. -/
def ReadsAt (op : Binary) (s : List Lexeme) (e : Expression) : Prop :=
  ∀ r : Reader, r.expectsOperand = true → Loose op.precedence r.stack →
    ∃ r', s.foldlM Reader.feed r = .ok r' ∧ r'.expectsOperand = false ∧
      Reader.settle op r'.output r'.stack = (r.output ++ e.listing.toArray, r.stack)

/-- Read as an expression of the rank. -/
def Reads : Rank → List Lexeme → Expression → Prop
  | .union => ReadsAt .union
  | .concat => ReadsAt .concat
  | .repetition | .atom => ReadsOperand

theorem foldlM_feed_append {s t : List Lexeme} {r r' : Reader}
    (h : s.foldlM Reader.feed r = .ok r') :
    (s ++ t).foldlM Reader.feed r = t.foldlM Reader.feed r' := by
  rw [List.foldlM_append, h]
  rfl

theorem foldlM_feed_singleton (r : Reader) (l : Lexeme) : [l].foldlM Reader.feed r = r.feed l := by
  rw [List.foldlM_cons]
  cases r.feed l <;> rfl

theorem juxtapose_of_expects {r : Reader} (h : r.expectsOperand = true) : r.juxtapose = r := by
  unfold Reader.juxtapose
  rw [if_pos h]

theorem juxtapose_of_not_expects {r : Reader} (h : r.expectsOperand = false) :
    r.juxtapose = Reader.pushBinary .concat r := by
  unfold Reader.juxtapose
  rw [if_neg (by simp [h])]

/-! ## Operands -/

theorem readsOperand_symbol {l : Lexeme} {c : Char} (hl : l.symbol? = some c) :
    ReadsOperand [l] (.symbol c) := by
  intro r
  have hfeed : r.feed l = .ok (Reader.pushSymbol l r.juxtapose) := by
    unfold Lexeme.symbol? at hl
    unfold Reader.feed
    cases hk : l.kind <;> simp_all
  refine ⟨Reader.pushSymbol l r.juxtapose, ?_, rfl, ?_, rfl⟩
  · rw [foldlM_feed_singleton, hfeed]
  · unfold Reader.pushSymbol
    simp [hl, Expression.listing]

theorem readsOperand_group {opening closing : Lexeme} {inner : List Lexeme} {e : Expression}
    (isOpening : opening.kind = .openGroup) (isClosing : closing.kind = .closeGroup)
    (inside : ReadsAt .union inner e) : ReadsOperand (opening :: inner ++ [closing]) e := by
  intro r
  let opened : Reader := { r.juxtapose with
    stack := .group opening.span :: r.juxtapose.stack, expectsOperand := true, last? := some opening }
  have hopen : r.feed opening = .ok opened := by
    unfold Reader.feed
    rw [isOpening]
  obtain ⟨r', hinner, hexpects, hsettle⟩ := inside opened rfl (loose_group _ _ _)
  have hgroup : r'.stack.any Pending.isGroup = true := by
    rw [← Reader.any_isGroup_settle .union r'.output, hsettle]
    rfl
  have hclose : Reader.closeGroup r'.output r'.stack =
      (r.juxtapose.output ++ e.listing.toArray, r.juxtapose.stack) := by
    rw [← Reader.closeGroup_settle .union, hsettle]
    rfl
  refine ⟨⟨r.juxtapose.output ++ e.listing.toArray, r.juxtapose.stack, false, some closing⟩,
    ?_, rfl, rfl, rfl⟩
  have hlast : r'.feed closing =
      .ok ⟨r.juxtapose.output ++ e.listing.toArray, r.juxtapose.stack, false, some closing⟩ := by
    unfold Reader.feed
    simp only [isClosing, hgroup, hexpects, hclose]
    rfl
  have hhead : (opening :: inner).foldlM Reader.feed r = .ok r' := by
    rw [List.foldlM_cons, hopen]
    exact hinner
  rw [foldlM_feed_append hhead, foldlM_feed_singleton, hlast]

theorem ReadsOperand.repetition {s : List Lexeme} {l : Lexeme} {e f : Expression} {token : Token}
    (h : ReadsOperand s e) (listing : f.listing = e.listing ++ [token])
    (hfeed : ∀ r : Reader, r.feed l = r.repetition l token) : ReadsOperand (s ++ [l]) f := by
  intro r
  obtain ⟨r', hs, hexpects, houtput, hstack⟩ := h r
  refine ⟨{ r' with output := r'.output.push token, last? := some l }, ?_, hexpects, ?_, hstack⟩
  · rw [foldlM_feed_append hs, foldlM_feed_singleton, hfeed]
    unfold Reader.repetition
    rw [if_neg (by simp [hexpects])]
  · simp [houtput, listing]

/-! ## Operators between operands -/

theorem ReadsOperand.readsAt_concat {s : List Lexeme} {e : Expression} (h : ReadsOperand s e) :
    ReadsAt .concat s e := by
  intro r hexpects hloose
  obtain ⟨r', hs, hexpects', houtput, hstack⟩ := h r
  rw [juxtapose_of_expects hexpects] at houtput hstack
  refine ⟨r', hs, hexpects', ?_⟩
  rw [houtput, hstack, Reader.settle_of_loose hloose]

theorem ReadsAt.readsAt_union {s : List Lexeme} {e : Expression} (h : ReadsAt .concat s e) :
    ReadsAt .union s e := by
  intro r hexpects hloose
  have hloose' : Loose Binary.concat.precedence r.stack := by
    intro top htop b hb
    exact Nat.lt_trans (hloose top htop b hb) (by decide)
  obtain ⟨r', hs, hexpects', hsettle⟩ := h r hexpects hloose'
  refine ⟨r', hs, hexpects', ?_⟩
  rw [← Reader.settle_settle _ .concat (by decide), hsettle, Reader.settle_of_loose hloose]

/-- What is read behind a waiting `op` leaves it the right operand that it lacks. -/
def ReadsBehind (op : Binary) (s : List Lexeme) (e : Expression) : Prop :=
  ∀ (r : Reader) (stack : List Pending), r.expectsOperand = true → r.stack = .operator op :: stack →
    ∃ r', s.foldlM Reader.feed r = .ok r' ∧ r'.expectsOperand = false ∧
      Reader.settle op r'.output r'.stack =
        Reader.settle op ((r.output ++ e.listing.toArray).push op.token) stack

theorem ReadsOperand.readsBehind {s : List Lexeme} {e : Expression} (h : ReadsOperand s e) :
    ReadsBehind .concat s e := by
  intro r stack hexpects hr
  obtain ⟨r', hs, hexpects', houtput, hstack⟩ := h r
  rw [juxtapose_of_expects hexpects] at houtput hstack
  refine ⟨r', hs, hexpects', ?_⟩
  rw [houtput, hstack, hr, Reader.settle_cons (Nat.le_refl _)]

theorem ReadsAt.readsBehind {s : List Lexeme} {e : Expression} (h : ReadsAt .concat s e) :
    ReadsBehind .union s e := by
  intro r stack hexpects hr
  have hloose : Loose Binary.concat.precedence r.stack := by
    rw [hr]
    exact loose_operator.2 (by decide)
  obtain ⟨r', hs, hexpects', hsettle⟩ := h r hexpects hloose
  refine ⟨r', hs, hexpects', ?_⟩
  rw [← Reader.settle_settle _ .concat (by decide), hsettle, hr,
    Reader.settle_cons (Nat.le_refl _)]

theorem ReadsAt.written {op : Binary} {s t : List Lexeme} {l : Lexeme} {e f : Expression}
    (left : ReadsAt op s e) (hfeed : ∀ r : Reader, r.feed l = r.binary l op)
    (right : ReadsBehind op t f) : ReadsAt op (s ++ l :: t) (op.apply e f) := by
  intro r hexpects hloose
  obtain ⟨r₁, hs, hexpects₁, hsettle₁⟩ := left r hexpects hloose
  let r₂ : Reader := { Reader.pushBinary op r₁ with expectsOperand := true, last? := some l }
  have hl : r₁.feed l = .ok r₂ := by
    rw [hfeed]
    unfold Reader.binary
    rw [if_neg (by simp [hexpects₁])]
  have houtput : r₂.output = r.output ++ e.listing.toArray := by
    show (Reader.settle op r₁.output r₁.stack).1 = _
    rw [hsettle₁]
  have hstack : r₂.stack = .operator op :: r.stack := by
    show .operator op :: (Reader.settle op r₁.output r₁.stack).2 = _
    rw [hsettle₁]
  obtain ⟨r₃, ht, hexpects₃, hsettle₃⟩ := right r₂ r.stack rfl hstack
  refine ⟨r₃, ?_, hexpects₃, ?_⟩
  · rw [foldlM_feed_append hs, List.foldlM_cons, hl]
    exact ht
  · rw [hsettle₃, houtput, Reader.settle_of_loose hloose, Binary.listing_apply]
    simp

/-- A concatenation without a sign. -/
theorem ReadsAt.juxtaposed {s t : List Lexeme} {e f : Expression} (left : ReadsAt .concat s e)
    (right : ReadsOperand t f) : ReadsAt .concat (s ++ t) (.concat e f) := by
  intro r hexpects hloose
  obtain ⟨r₁, hs, hexpects₁, hsettle₁⟩ := left r hexpects hloose
  obtain ⟨r₂, ht, hexpects₂, houtput, hstack⟩ := right r₁
  have hpush : r₁.juxtapose.output = r.output ++ e.listing.toArray ∧
      r₁.juxtapose.stack = .operator .concat :: r.stack := by
    rw [juxtapose_of_not_expects hexpects₁]
    show (Reader.settle .concat r₁.output r₁.stack).1 = _ ∧
      .operator .concat :: (Reader.settle .concat r₁.output r₁.stack).2 = _
    rw [hsettle₁]
    exact ⟨rfl, rfl⟩
  refine ⟨r₂, ?_, hexpects₂, ?_⟩
  · rw [foldlM_feed_append hs]
    exact ht
  · rw [houtput, hstack, hpush.1, hpush.2, Reader.settle_cons (Nat.le_refl _),
      Reader.settle_of_loose hloose]
    simp [Expression.listing, Binary.token]

theorem reads_of_derives {rank : Rank} {s : List Lexeme} {e : Expression} (h : Derives rank s e) :
    Reads rank s e := by
  induction h with
  | symbol denotes => exact readsOperand_symbol denotes
  | group isOpening isClosing _ ih => exact readsOperand_group isOpening isClosing ih
  | ofAtom _ ih => exact ih
  | star _ isStar ih =>
    exact ReadsOperand.repetition ih rfl fun r => by unfold Reader.feed; rw [isStar]
  | plus _ isPlus ih =>
    exact ReadsOperand.repetition ih rfl fun r => by unfold Reader.feed; rw [isPlus]
  | optional _ isQuestion ih =>
    exact ReadsOperand.repetition ih rfl fun r => by unfold Reader.feed; rw [isQuestion]
  | ofRepetition _ ih => exact ReadsOperand.readsAt_concat ih
  | juxtaposed _ _ ihs iht => exact ReadsAt.juxtaposed ihs iht
  | concat _ isDot _ ihs iht =>
    exact ReadsAt.written ihs (fun r => by unfold Reader.feed; rw [isDot]) iht.readsBehind
  | ofConcat _ ih => exact ReadsAt.readsAt_union ih
  | union _ isBar _ ihs iht =>
    exact ReadsAt.written ihs (fun r => by unfold Reader.feed; rw [isBar]) iht.readsBehind

end FiniteAutomata.InfixText
