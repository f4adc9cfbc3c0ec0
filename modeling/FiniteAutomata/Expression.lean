import FiniteAutomata.Token
/-!
# Expressions and their languages

An expression is a tree. Its `listing` puts each operator behind its operands, which is the order of
postfix text, and `Denotes` says which words belong to its language. Neither mentions automata: they
are what constructions of automata are measured by.

Main statement: `listing` determines the tree (`listing_inj`).
-/

namespace FiniteAutomata

/-- A regular expression. -/
inductive Expression where
  | symbol (c : Char)
  | concat (e f : Expression)
  | union (e f : Expression)
  | star (e : Expression)
  | plus (e : Expression)
  | optional (e : Expression)
  deriving DecidableEq, Repr

namespace Expression

/-- The tokens of an expression, operands before their operator. -/
def listing : Expression → List Token
  | symbol c => [.literal c]
  | concat e f => e.listing ++ f.listing ++ [.concat]
  | union e f => e.listing ++ f.listing ++ [.union]
  | star e => e.listing ++ [.star]
  | plus e => e.listing ++ [.plus]
  | optional e => e.listing ++ [.optional]

/-- The word belongs to the language of the expression. -/
inductive Denotes : Expression → List Char → Prop where
  | symbol (c : Char) : Denotes (symbol c) [c]
  | concat {e f : Expression} {v w : List Char} (first : Denotes e v) (second : Denotes f w) :
    Denotes (concat e f) (v ++ w)
  | unionLeft {e f : Expression} {w : List Char} (left : Denotes e w) : Denotes (union e f) w
  | unionRight {e f : Expression} {w : List Char} (right : Denotes f w) : Denotes (union e f) w
  | starNil {e : Expression} : Denotes (star e) []
  | starAppend {e : Expression} {v w : List Char} (once : Denotes e v) (again : Denotes (star e) w) :
    Denotes (star e) (v ++ w)
  | plus {e : Expression} {v w : List Char} (once : Denotes e v) (again : Denotes (star e) w) :
    Denotes (plus e) (v ++ w)
  | optionalNil {e : Expression} : Denotes (optional e) []
  | optionalOnce {e : Expression} {w : List Char} (once : Denotes e w) : Denotes (optional e) w

theorem listing_ne_nil (e : Expression) : e.listing ≠ [] := by
  cases e <;> simp [listing]

/-! ## Reading a listing -/

/-- The expressions that tokens leave on a stack of operands, the latest first; none if an operator
finds too few of them. -/
def reduce? : List Expression → List Token → Option (List Expression)
  | stack, [] => some stack
  | stack, .literal c :: rest => reduce? (.symbol c :: stack) rest
  | f :: e :: stack, .concat :: rest => reduce? (.concat e f :: stack) rest
  | f :: e :: stack, .union :: rest => reduce? (.union e f :: stack) rest
  | e :: stack, .star :: rest => reduce? (.star e :: stack) rest
  | e :: stack, .plus :: rest => reduce? (.plus e :: stack) rest
  | e :: stack, .optional :: rest => reduce? (.optional e :: stack) rest
  | _, _ => none

theorem reduce?_listing (e : Expression) (stack : List Expression) (rest : List Token) :
    reduce? stack (e.listing ++ rest) = reduce? (e :: stack) rest := by
  induction e generalizing stack rest with
  | symbol c => simp [listing, reduce?]
  | concat e f ihe ihf => simp [listing, reduce?, ihe, ihf]
  | union e f ihe ihf => simp [listing, reduce?, ihe, ihf]
  | star e ih => simp [listing, reduce?, ih]
  | plus e ih => simp [listing, reduce?, ih]
  | optional e ih => simp [listing, reduce?, ih]

theorem listing_inj {e f : Expression} (h : e.listing = f.listing) : e = f := by
  have he := reduce?_listing e [] []
  have hf := reduce?_listing f [] []
  rw [h, hf] at he
  simpa [reduce?] using he.symm

end Expression

/-! ## Languages of token lists -/

namespace Token

/-- The results that tokens leave, if no operator finds too few. -/
def balance : List Token → Int
  | [] => 0
  | t :: rest => 1 - (t.arity : Int) + balance rest

/-- The word belongs to the language of the expression that the tokens list; no tokens at all denote
the empty word alone. -/
def Denote (tokens : List Token) (word : List Char) : Prop :=
  (tokens = [] ∧ word = []) ∨ ∃ e : Expression, e.listing = tokens ∧ e.Denotes word

end Token

end FiniteAutomata
