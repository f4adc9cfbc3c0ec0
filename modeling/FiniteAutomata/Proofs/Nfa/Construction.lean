import FiniteAutomata.Proofs.Nfa.Arena
import FiniteAutomata.Proofs.Nfa.Closure
/-!
# The automaton of a list of tokens

The builder keeps a fragment for every expression that the tokens so far leave (`Represents`). One
token keeps this up (`Represents.feed`): it takes the fragments of the expressions that it joins, and
changes no edge of a state below them. A whole list is read token by token
(`Represents.feedAll`).

Main statement: `isWhole_of_ofTokens` says that the automaton of a list of tokens is one fragment
with their language, so simulation accepts what they denote (`accepts_ofTokens`). There is one for
the listing of every expression (`ofTokens_listing`), since no operator in it finds too few fragments
(`feedAll_of_listing_eq`).
-/

namespace FiniteAutomata

open scoped Computability

namespace Nfa

/-! ## What an operator makes -/

namespace States

variable {states : States} {lo mid : Nat} {a b f : Fragment} {L M : Language Char}

/-- A new fragment with the language `L` takes up all states from `lo` on; those below are as before. -/
def Makes (states : States) (lo : Nat) (L : Language Char) (made : Checked (States × Fragment)) : Prop :=
  ∃ states' f, made = .ok (states', f) ∧ IsFragment states'.Edge lo states'.size f L ∧
    (∀ p < lo, ∀ l q, states'.Edge p l q ↔ states.Edge p l q) ∧ (states.Proper → states'.Proper)

theorem literal_makes (states : States) (c : Char) :
    Makes states states.size {[c]} (states.literal c) := by
  obtain ⟨states', hmade, hsize, hedge, hproper⟩ := literal_spec states c
  refine ⟨states', _, hmade, ?_, ?_, hproper⟩
  · rw [hsize]
    refine IsFragment.literal fun p hp l q => ?_
    rw [hedge]
    exact or_iff_right (not_edge_of_size_le hp.1 l q)
  · intro p hp l q
    rw [hedge]
    refine or_iff_left fun h => ?_
    have := h.1
    omega

/-- Every operator links states from `lo` on, after it made room for up to two new ones. -/
theorem connectAll_makes {more : States} {hi : Nat} {pairs : List (Nat × Nat)}
    (hmore : more.Edge = states.Edge) (hsize : more.size = hi) (hproper : states.Proper → more.Proper)
    (hfrag : IsFragment (link states.Edge pairs) lo hi f L)
    (hpairs : ∀ pair ∈ pairs, lo ≤ pair.1 ∧ pair.1 < hi) :
    Makes states lo L (do return (← more.connectAll pairs, f)) := by
  subst hsize
  obtain ⟨states', hmade, hsize', hedge', hproper'⟩ :=
    connectAll_spec fun pair h => (hpairs pair h).2
  refine ⟨states', f, ?_, ?_, ?_, hproper' ∘ hproper⟩
  · rw [hmade]
    rfl
  · rw [hsize', hedge', hmore]
    exact hfrag
  · intro p hp l q
    rw [hedge', hmore]
    refine link_iff_of_forall_ne fun q hq => ?_
    have := (hpairs _ hq).1
    omega

theorem concat_makes (ha : IsFragment states.Edge lo mid a L)
    (hb : IsFragment states.Edge mid states.size b M) : Makes states lo (L * M) (states.concat a b) := by
  obtain ⟨ha₁, ha₂⟩ := ha.accept_mem
  obtain ⟨hb₁, hb₂⟩ := hb.start_mem
  have h := connectAll_makes rfl rfl id (ha.concat hb) <| by
    simp only [List.forall_mem_cons]
    refine ⟨?_, fun _ h => nomatch h⟩
    omega
  simpa [connectAll, concat] using h

theorem union_makes (ha : IsFragment states.Edge lo mid a L)
    (hb : IsFragment states.Edge mid states.size b M) : Makes states lo (L + M) (states.union a b) := by
  obtain ⟨ha₁, ha₂⟩ := ha.accept_mem
  obtain ⟨hb₁, hb₂⟩ := hb.accept_mem
  have hfrag := ha.union hb fun p hp => not_edge_of_size_le hp
  have h := connectAll_makes (edge_add_add states) (size_add_add states) (·.add.add) hfrag <| by
    simp only [List.forall_mem_cons]
    refine ⟨?_, ?_, ?_, ?_, fun _ h => nomatch h⟩ <;> omega
  simpa [connectAll, union] using h

theorem star_makes (ha : IsFragment states.Edge lo states.size a L) :
    Makes states lo L∗ (states.star a) := by
  obtain ⟨ha₁, ha₂⟩ := ha.accept_mem
  have hfrag := ha.star fun p hp => not_edge_of_size_le hp
  have h := connectAll_makes (edge_add_add states) (size_add_add states) (·.add.add) hfrag <| by
    simp only [List.forall_mem_cons]
    refine ⟨?_, ?_, ?_, ?_, fun _ h => nomatch h⟩ <;> omega
  simpa [connectAll, star] using h

theorem plus_makes (ha : IsFragment states.Edge lo states.size a L) :
    Makes states lo (L * L∗) (states.plus a) := by
  obtain ⟨ha₁, ha₂⟩ := ha.accept_mem
  have hfrag := ha.plus fun p hp => not_edge_of_size_le hp
  have h := connectAll_makes (edge_add states) (size_add states) (·.add) hfrag <| by
    simp only [List.forall_mem_cons]
    refine ⟨?_, ?_, fun _ h => nomatch h⟩ <;> omega
  simpa [connectAll, plus] using h

theorem optional_makes (ha : IsFragment states.Edge lo states.size a L) :
    Makes states lo (L + 1) (states.optional a) := by
  have hempty : IsFragment states.add.1.Edge states.size states.add.1.size ⟨states.size, states.size⟩
      1 := by
    rw [size_add]
    refine .single fun l q => ?_
    rw [edge_add]
    exact not_edge_of_size_le (Nat.le_refl _) l q
  rw [← edge_add] at ha
  obtain ⟨states', f, hmade, hfrag, hbelow, hproper⟩ := union_makes ha hempty
  rw [edge_add] at hbelow
  exact ⟨states', f, hmade, hfrag, hbelow, fun h => hproper h.add⟩

end States

/-! ## Token by token -/

theorem Builder.feedAll_append (b : Builder) (position : Nat) (s t : List Token) :
    b.feedAll position (s ++ t) =
      (do (← b.feedAll position s).feedAll (position + s.length) t) := by
  induction s generalizing b position with
  | nil => rfl
  | cons a s ih =>
    show (do (← b.feed a position).feedAll (position + 1) (s ++ t)) =
      (do (← (do (← b.feed a position).feedAll (position + 1) s)).feedAll _ t)
    rw [bind_assoc]
    refine bind_congr fun next => ?_
    rw [ih, List.length_cons, Nat.add_assoc, Nat.add_comm 1]

/-- The fragments of a stack of expressions, the latest first, take up all states one after the
other. -/
inductive Stacked (edge : EdgeRelation) : Nat → List Fragment → List Expression → Prop where
  | nil : Stacked edge 0 [] []
  | cons {lo hi : Nat} {f : Fragment} {e : Expression} {fragments : List Fragment}
    {stack : List Expression} (rest : Stacked edge lo fragments stack)
    (top : IsFragment edge lo hi f e.language) : Stacked edge hi (f :: fragments) (e :: stack)

namespace Stacked

variable {edge edge' : EdgeRelation} {hi : Nat} {fragments : List Fragment} {stack : List Expression}

/-- Only the edges of the states that are taken up matter. -/
theorem congr (h : Stacked edge hi fragments stack)
    (hedge : ∀ p < hi, ∀ l q, edge' p l q ↔ edge p l q) : Stacked edge' hi fragments stack := by
  induction h with
  | nil => exact .nil
  | cons rest top ih =>
    have hlo := Nat.lt_of_le_of_lt top.start_mem.1 top.start_mem.2
    exact .cons (ih fun p hp => hedge p (Nat.lt_trans hp hlo)) (top.congr fun p hp => hedge p hp.2)

theorem eq_nil (h : Stacked edge hi fragments []) : fragments = [] := by
  cases h
  rfl

theorem eq_zero (h : Stacked edge hi fragments []) : hi = 0 := by
  cases h
  rfl

theorem exists_of_cons {e : Expression} (h : Stacked edge hi fragments (e :: stack)) :
    ∃ lo f rest, fragments = f :: rest ∧ Stacked edge lo rest stack ∧
      IsFragment edge lo hi f e.language := by
  cases h with
  | cons rest top => exact ⟨_, _, _, rfl, rest, top⟩

theorem length_eq (h : Stacked edge hi fragments stack) : fragments.length = stack.length := by
  induction h with
  | nil => rfl
  | cons _ _ ih => simp [ih]

end Stacked

/-- The fragments of a builder are those of a stack of expressions. -/
structure Represents (b : Builder) (stack : List Expression) : Prop where
  stacked : Stacked b.states.Edge b.states.size b.stack stack
  proper : b.states.Proper

namespace Represents

variable {b : Builder} {stack left : List Expression}

theorem empty : Represents Builder.empty [] :=
  ⟨.nil, fun _ hs => absurd hs (Array.not_mem_empty _)⟩

/-- A new fragment comes in the place of those that it is made from. -/
theorem push {states : States} {lo : Nat} {rest : List Fragment} {e : Expression}
    {made : Checked (States × Fragment)} (hrest : Stacked states.Edge lo rest stack)
    (hproper : states.Proper) (hmade : states.Makes lo e.language made) :
    ∃ b', Builder.push rest made = .ok b' ∧ Represents b' (e :: stack) := by
  obtain ⟨states', f, rfl, hfrag, hbelow, hproper'⟩ := hmade
  exact ⟨⟨states', f :: rest⟩, rfl, .cons (hrest.congr hbelow) hfrag, hproper' hproper⟩

/-- **One token.** The builder goes on if the operator finds enough expressions. -/
theorem feed (h : Represents b stack) (position : Nat) {t : Token}
    (hleft : Expression.reduce? stack [t] = some left) :
    ∃ b', b.feed t position = .ok b' ∧ Represents b' left := by
  obtain ⟨states, fragments⟩ := b
  obtain ⟨hstacked, hproper⟩ := h
  cases t with
  | literal c =>
    cases hleft
    refine push hstacked hproper ?_
    rw [Expression.language_symbol]
    exact states.literal_makes c
  | concat =>
    match stack with
    | [] | [_] => cases hleft
    | f :: e :: _ =>
      cases hleft
      obtain ⟨_, _, _, rfl, hrest, hf⟩ := hstacked.exists_of_cons
      obtain ⟨_, _, _, rfl, hrest, he⟩ := hrest.exists_of_cons
      refine push hrest hproper ?_
      rw [Expression.language_concat]
      exact States.concat_makes he hf
  | union =>
    match stack with
    | [] | [_] => cases hleft
    | f :: e :: _ =>
      cases hleft
      obtain ⟨_, _, _, rfl, hrest, hf⟩ := hstacked.exists_of_cons
      obtain ⟨_, _, _, rfl, hrest, he⟩ := hrest.exists_of_cons
      refine push hrest hproper ?_
      rw [Expression.language_union]
      exact States.union_makes he hf
  | star =>
    match stack with
    | [] => cases hleft
    | e :: _ =>
      cases hleft
      obtain ⟨_, _, _, rfl, hrest, he⟩ := hstacked.exists_of_cons
      refine push hrest hproper ?_
      rw [Expression.language_star]
      exact States.star_makes he
  | plus =>
    match stack with
    | [] => cases hleft
    | e :: _ =>
      cases hleft
      obtain ⟨_, _, _, rfl, hrest, he⟩ := hstacked.exists_of_cons
      refine push hrest hproper ?_
      rw [Expression.language_plus]
      exact States.plus_makes he
  | optional =>
    match stack with
    | [] => cases hleft
    | e :: _ =>
      cases hleft
      obtain ⟨_, _, _, rfl, hrest, he⟩ := hstacked.exists_of_cons
      refine push hrest hproper ?_
      rw [Expression.language_optional]
      exact States.optional_makes he

theorem feed_error (h : Represents b stack) (position : Nat) {t : Token}
    (hnone : Expression.reduce? stack [t] = none) :
    b.feed t position = .error (.malformed (some t) position stack.length) := by
  obtain ⟨states, fragments⟩ := b
  have hstacked := h.stacked
  cases t with
  | literal c => cases hnone
  | concat | union =>
    match stack with
    | [] =>
      obtain rfl := hstacked.eq_nil
      rfl
    | [_] =>
      obtain ⟨_, _, _, rfl, hrest, _⟩ := hstacked.exists_of_cons
      obtain rfl := hrest.eq_nil
      rfl
    | _ :: _ :: _ => cases hnone
  | star | plus | optional =>
    match stack with
    | [] =>
      obtain rfl := hstacked.eq_nil
      rfl
    | _ :: _ => cases hnone

theorem feedAll (h : Represents b stack) (position : Nat) {tokens : List Token}
    (hleft : Expression.reduce? stack tokens = some left) :
    ∃ b', b.feedAll position tokens = .ok b' ∧ Represents b' left := by
  induction tokens generalizing b stack position with
  | nil =>
    obtain rfl : stack = left := by simpa [Expression.reduce?] using hleft
    exact ⟨b, rfl, h⟩
  | cons t tokens ih =>
    rw [Expression.reduce?_cons] at hleft
    obtain ⟨next, hnext, hleft⟩ := Option.bind_eq_some_iff.1 hleft
    obtain ⟨b₁, hb₁, h₁⟩ := h.feed position hnext
    obtain ⟨b₂, hb₂, h₂⟩ := ih h₁ (position + 1) hleft
    refine ⟨b₂, ?_, h₂⟩
    show (do (← b.feed t position).feedAll (position + 1) tokens) = _
    rw [hb₁]
    exact hb₂

/-- The first operator that finds too few expressions is reported with its place and their number. -/
theorem feedAll_error (h : Represents b stack) (position : Nat) {before after : List Token}
    {t : Token} (hleft : Expression.reduce? stack before = some left)
    (hnone : Expression.reduce? left [t] = none) :
    b.feedAll position (before ++ t :: after) =
      .error (.malformed (some t) (position + before.length) left.length) := by
  obtain ⟨b', hb', h'⟩ := h.feedAll position hleft
  rw [Builder.feedAll_append, hb']
  show (do (← b'.feed t (position + before.length)).feedAll _ after) = _
  rw [h'.feed_error _ hnone]
  rfl

end Represents

/-! ## All tokens -/

/-- The automaton is one fragment with the language `L`. -/
structure IsWhole (nfa : Nfa) (f : Fragment) (L : Language Char) : Prop where
  start_eq : nfa.start = f.start
  accept_eq : nfa.accept = Ordered.singleton f.accept
  fragment : IsFragment nfa.Edge 0 nfa.size f L
  proper : States.Proper nfa.states

namespace IsWhole

variable {nfa : Nfa} {f : Fragment} {L : Language Char}

theorem mem_accept_iff (h : IsWhole nfa f L) {q : Nat} : q ∈ nfa.accept ↔ q = f.accept := by
  rw [h.accept_eq]
  exact List.mem_singleton

theorem acceptsByPath_iff (h : IsWhole nfa f L) {w : List Char} : nfa.AcceptsByPath w ↔ w ∈ L := by
  unfold AcceptsByPath
  rw [← h.fragment.path_iff, h.start_eq]
  constructor
  · rintro ⟨q, hq, hw⟩
    rwa [h.mem_accept_iff.1 hq] at hw
  · exact fun hw => ⟨f.accept, h.mem_accept_iff.2 rfl, hw⟩

theorem wellFormed (h : IsWhole nfa f L) : nfa.WellFormed := by
  refine ⟨?_, fun {p l q} he => ?_⟩
  · rw [h.start_eq]
    exact h.fragment.start_mem.2
  · have hp := lt_size_of_edge he
    exact (h.fragment.edge_mem p ⟨Nat.zero_le p, hp⟩ l q he).2

theorem trim (h : IsWhole nfa f L) : nfa.Trim := by
  refine ⟨h.wellFormed, fun p hp => ?_, fun p hp => ?_, fun c hc => ?_⟩
  · rw [h.start_eq]
    exact h.fragment.reach p ⟨Nat.zero_le p, hp⟩
  · obtain ⟨w, hw⟩ := h.fragment.coreach p ⟨Nat.zero_le p, hp⟩
    exact ⟨w, f.accept, h.mem_accept_iff.2 rfl, hw⟩
  · obtain ⟨s, hs, targets, htargets⟩ := mem_alphabet_iff.1 hc
    obtain ⟨q, hq⟩ := h.proper s hs c targets htargets
    obtain ⟨p, hp⟩ := Array.mem_iff_getElem?.1 hs
    exact ⟨p, q, s, hp, targets, htargets, hq⟩

end IsWhole

theorem isWhole_emptyExpression : IsWhole emptyExpression ⟨0, 0⟩ 1 := by
  refine ⟨rfl, rfl, .single fun l q he => ?_, fun s hs c targets hc => ?_⟩
  · obtain ⟨s, hs, hl⟩ := he
    cases hs
    exact NfaState.not_leads_empty hl
  · obtain rfl : s = .empty := by simpa [emptyExpression] using hs
    cases hc

theorem Represents.finish {b : Builder} {left : List Expression} (h : Represents b left)
    (count : Nat) :
    match left with
    | [e] => ∃ nfa f, b.finish count = .ok nfa ∧ IsWhole nfa f e.language
    | _ => b.finish count = .error (.malformed none count left.length) := by
  obtain ⟨states, fragments⟩ := b
  obtain ⟨hstacked, hproper⟩ := h
  match left with
  | [] =>
    obtain rfl := hstacked.eq_nil
    rfl
  | [e] =>
    obtain ⟨lo, f, _, rfl, hrest, hf⟩ := hstacked.exists_of_cons
    obtain rfl := hrest.eq_nil
    rw [hrest.eq_zero] at hf
    exact ⟨⟨states, f.start, Ordered.singleton f.accept, false⟩, f, rfl, rfl, rfl, hf, hproper⟩
  | _ :: _ :: _ =>
    have hlength := hstacked.length_eq
    obtain ⟨_, _, _, rfl, hrest, _⟩ := hstacked.exists_of_cons
    obtain ⟨_, _, _, rfl, _, _⟩ := hrest.exists_of_cons
    show Except.error (BuildError.malformed none count _) = _
    rw [hlength]

theorem ofTokens_cons (t : Token) (tokens : List Token) :
    ofTokens (t :: tokens) =
      (do (← Builder.empty.feedAll 0 (t :: tokens)).finish (tokens.length + 1)) :=
  rfl

/-- Tokens are none at all, or they list an expression and the automaton is one fragment with its
language, or they are malformed: the construction itself meets no fault. -/
theorem ofTokens_spec (tokens : List Token) :
    (tokens = [] ∧ ofTokens tokens = .ok emptyExpression) ∨
      (∃ (e : Expression) (nfa : Nfa) (f : Fragment),
        e.listing = tokens ∧ ofTokens tokens = .ok nfa ∧ IsWhole nfa f e.language) ∨
      ∃ token? position depth, ofTokens tokens = .error (.malformed token? position depth) := by
  cases tokens with
  | nil => exact Or.inl ⟨rfl, rfl⟩
  | cons t tokens =>
    rw [ofTokens_cons]
    cases hleft : Expression.reduce? [] (t :: tokens) with
    | none =>
      obtain ⟨before, t', after, left, hsplit, hbefore, hnone⟩ :=
        Expression.exists_of_reduce?_eq_none hleft
      rw [hsplit, Represents.empty.feedAll_error 0 hbefore hnone]
      exact Or.inr (Or.inr ⟨_, _, _, rfl⟩)
    | some left =>
      obtain ⟨b, hb, hrep⟩ := Represents.empty.feedAll 0 hleft
      have hfinish := hrep.finish (tokens.length + 1)
      rw [hb]
      match left with
      | [] | _ :: _ :: _ => exact Or.inr (Or.inr ⟨_, _, _, hfinish⟩)
      | [e] =>
        obtain ⟨nfa, f, hnfa, hwhole⟩ := hfinish
        exact Or.inr (Or.inl ⟨e, nfa, f, Expression.reduce?_eq_singleton_iff.1 hleft, hnfa, hwhole⟩)

theorem ofTokens_cases {tokens : List Token} {nfa : Nfa} (h : ofTokens tokens = .ok nfa) :
    (tokens = [] ∧ nfa = emptyExpression) ∨
      ∃ (e : Expression) (f : Fragment), e.listing = tokens ∧ IsWhole nfa f e.language := by
  rcases ofTokens_spec tokens with ⟨hnil, hok⟩ | ⟨e, nfa', f, he, hok, hwhole⟩ | ⟨_, _, _, herror⟩
  · exact Or.inl ⟨hnil, Except.ok.inj (h.symm.trans hok)⟩
  · obtain rfl : nfa = nfa' := Except.ok.inj (h.symm.trans hok)
    exact Or.inr ⟨e, f, he, hwhole⟩
  · cases h.symm.trans herror

theorem exists_malformed_of_error {tokens : List Token} {error : BuildError}
    (h : ofTokens tokens = .error error) :
    ∃ token? position depth, error = .malformed token? position depth := by
  rcases ofTokens_spec tokens with ⟨_, hok⟩ | ⟨_, _, _, _, hok, _⟩ | ⟨token?, position, depth, herror⟩
  · cases h.symm.trans hok
  · cases h.symm.trans hok
  · exact ⟨token?, position, depth, Except.error.inj (h.symm.trans herror)⟩

theorem isWhole_of_ofTokens {tokens : List Token} {nfa : Nfa} (h : ofTokens tokens = .ok nfa) :
    ∃ f, IsWhole nfa f {w | Token.Denote tokens w} := by
  rcases ofTokens_cases h with ⟨rfl, rfl⟩ | ⟨e, f, rfl, hwhole⟩
  · have hone : (1 : Language Char) = {w | Token.Denote [] w} := by
      ext w
      exact (Language.mem_one w).trans Token.denote_nil.symm
    exact ⟨_, hone ▸ isWhole_emptyExpression⟩
  · refine ⟨f, ?_⟩
    simp only [Token.denote_listing]
    exact hwhole

/-- **Language.** Tokens that have an automaton are none at all or list an expression, and simulation
of the automaton accepts exactly the words that they denote. -/
theorem accepts_ofTokens {tokens : List Token} {nfa : Nfa} (h : ofTokens tokens = .ok nfa) :
    (tokens = [] ∨ ∃ e : Expression, e.listing = tokens) ∧
      ∀ w, ∃ b, nfa.accepts w = .ok b ∧ (b = true ↔ Token.Denote tokens w) := by
  refine ⟨?_, fun w => ?_⟩
  · rcases ofTokens_cases h with ⟨hnil, _⟩ | ⟨e, _, hlisting, _⟩
    · exact Or.inl hnil
    · exact Or.inr ⟨e, hlisting⟩
  · obtain ⟨f, hwhole⟩ := isWhole_of_ofTokens h
    obtain ⟨b, hb, hpath⟩ := accepts_returns hwhole.wellFormed w
    exact ⟨b, hb, hpath.trans hwhole.acceptsByPath_iff⟩

/-- A loop around a loop, in a fragment that may be passed by. -/
theorem accepts_ofTokens_loops :
    ∃ nfa, ofTokens [.literal 'a', .optional, .star, .literal 'b', .concat, .plus] = .ok nfa ∧
      ([.literal 'a', .optional, .star, .literal 'b', .concat, .plus] = ([] : List Token) ∨
        ∃ e : Expression,
          e.listing = [.literal 'a', .optional, .star, .literal 'b', .concat, .plus]) ∧
      ∀ w, ∃ b, nfa.accepts w = .ok b ∧ (b = true ↔
        Token.Denote [.literal 'a', .optional, .star, .literal 'b', .concat, .plus] w) := by
  have h : ∃ nfa,
      ofTokens [.literal 'a', .optional, .star, .literal 'b', .concat, .plus] = .ok nfa := ⟨_, rfl⟩
  obtain ⟨nfa, h⟩ := h
  exact ⟨nfa, h, accepts_ofTokens h⟩

/-! ## Listings -/

theorem feedAll_of_reduce? {tokens : List Token} {left : List Expression}
    (h : Expression.reduce? [] tokens = some left) :
    ∃ b, Builder.empty.feedAll 0 tokens = .ok b ∧ b.stack.length = left.length := by
  obtain ⟨b, hb, hrep⟩ := Represents.empty.feedAll 0 h
  exact ⟨b, hb, hrep.stacked.length_eq⟩

theorem feedAll_of_listing_eq {e : Expression} {before after : List Token} {t : Token}
    (h : e.listing = before ++ t :: after) :
    ∃ b, Builder.empty.feedAll 0 before = .ok b ∧ t.arity ≤ b.stack.length := by
  have hleft := (Expression.reduce?_eq_singleton_iff (e := e)).2 h
  rw [Expression.reduce?_append] at hleft
  obtain ⟨stack, hstack, hleft⟩ := Option.bind_eq_some_iff.1 hleft
  rw [Expression.reduce?_cons] at hleft
  obtain ⟨next, hnext, _⟩ := Option.bind_eq_some_iff.1 hleft
  obtain ⟨b, hb, hlength⟩ := feedAll_of_reduce? hstack
  obtain ⟨_, taken, rest, _, rfl, htaken, _⟩ := Expression.exists_of_reduce?_singleton hnext
  refine ⟨b, hb, ?_⟩
  rw [List.length_append] at hlength
  omega

theorem ofTokens_listing (e : Expression) : ∃ nfa, ofTokens e.listing = .ok nfa := by
  obtain ⟨b, hb, hrep⟩ :=
    Represents.empty.feedAll 0 ((Expression.reduce?_eq_singleton_iff (e := e)).2 rfl)
  obtain ⟨nfa, f, hnfa, _⟩ := hrep.finish e.listing.length
  refine ⟨nfa, ?_⟩
  have hne := e.listing_ne_nil
  generalize e.listing = tokens at *
  cases tokens with
  | nil => exact absurd rfl hne
  | cons t tokens =>
    rw [ofTokens_cons, hb]
    exact hnfa

end Nfa

end FiniteAutomata
