import FiniteAutomata.CommandLine.Arguments
import FiniteAutomata.Proofs.Returns
/-!
# Positional arguments

Options may stand anywhere among the words of a command, so which words are positional arguments comes
out only as they are read. A word turns reading to positional arguments alone, or leaves those that
there are as they are, or is one more of them (`Reading.feed_cases`). So none is lost, none is there
twice, and they are in the order of the words (`Gives.positionals_sublist`); behind `--` every word is
one, whatever it looks like (`Gives.append_dashes`).
-/

namespace FiniteAutomata.CommandLine

variable {command : CommandName} {option : OptionName} {g g' g'' : Given} {r r' : Reading}
  {value word : String} {words : List String}

/-! ## What is given -/

namespace Given

/-- The positional arguments, in order. -/
def positionals (g : Given) : List String := g.expr?.toList ++ g.inputs.toList

/-- What is given besides the positional arguments. -/
def options (g : Given) : Given := { g with expr? := none, inputs := #[] }

/-- There are inputs only behind a first positional argument. -/
def InOrder (g : Given) : Prop := g.expr? = none → g.inputs = #[]

/-- One more positional argument. -/
def push (g : Given) (word : String) : Given :=
  if g.expr?.isNone then { g with expr? := some word } else { g with inputs := g.inputs.push word }

/-- The positional arguments are the same. -/
structure SamePositionals (g g' : Given) : Prop where
  expr? : g'.expr? = g.expr?
  inputs : g'.inputs = g.inputs

namespace SamePositionals

theorem refl (g : Given) : SamePositionals g g := ⟨rfl, rfl⟩

theorem trans (h : SamePositionals g g') (h' : SamePositionals g' g'') : SamePositionals g g'' :=
  ⟨h'.expr?.trans h.expr?, h'.inputs.trans h.inputs⟩

theorem positionals_eq (h : SamePositionals g g') : g'.positionals = g.positionals := by
  unfold positionals
  rw [h.expr?, h.inputs]

theorem inOrder (h : SamePositionals g g') (hin : g.InOrder) : g'.InOrder := by
  intro hnone
  rw [h.inputs]
  exact hin (h.expr?.symm.trans hnone)

end SamePositionals

/-! ### One more positional argument -/

theorem inOrder_push (h : g.InOrder) (word : String) : (g.push word).InOrder := by
  unfold push
  cases hexpr : g.expr? with
  | none => exact fun _ => h hexpr
  | some first => exact fun hnone => absurd hnone (Option.some_ne_none first)

theorem positionals_push (h : g.InOrder) (word : String) :
    (g.push word).positionals = g.positionals ++ [word] := by
  unfold push positionals
  cases hexpr : g.expr? with
  | none => simp [h hexpr]
  | some first => simp

theorem options_push (g : Given) (word : String) : (g.push word).options = g.options := by
  unfold push
  split <;> rfl

theorem positionals_foldl_push (h : g.InOrder) (words : List String) :
    (words.foldl push g).positionals = g.positionals ++ words := by
  induction words generalizing g with
  | nil => exact (List.append_nil _).symm
  | cons word words ih =>
    rw [List.foldl_cons, ih (inOrder_push h word), positionals_push h, List.append_assoc]
    rfl

theorem options_foldl_push (g : Given) (words : List String) :
    (words.foldl push g).options = g.options := by
  induction words generalizing g with
  | nil => rfl
  | cons word words ih => rw [List.foldl_cons, ih, options_push]

/-! ### Options -/

theorem same_of_set (h : g.set option value = .ok g') : SamePositionals g g' := by
  cases option with
  | file | output | stage | color =>
    obtain ⟨_, _, h⟩ := exists_of_bind_eq_ok h
    cases h
    exact ⟨rfl, rfl⟩
  | isPostfix | subsets | verbose | help => cases h

theorem same_of_flag (h : g.flag option = .ok g') : SamePositionals g g' := by
  cases option with
  | isPostfix | subsets =>
    simp only [flag] at h
    split at h
    · cases h
    · cases h
      exact ⟨rfl, rfl⟩
  | verbose =>
    cases h
    exact ⟨rfl, rfl⟩
  | file | stage | output | color | help => cases h

end Given

open Given (SamePositionals)

/-! ## One word -/

namespace Reading

theorem same_of_settle (h : r.settle = .ok g) : SamePositionals r.given g := by
  unfold settle at h
  split at h
  · cases h
    exact .refl _
  · cases h
  · exact Given.same_of_set h

/-- The reading goes on with the same positional arguments. -/
structure Beside (r r' : Reading) : Prop where
  same : SamePositionals r.given r'.given
  onlyPositional : r'.onlyPositional = r.onlyPositional

theorem Beside.trans {r'' : Reading} (h : Beside r r') (h' : Beside r' r'') : Beside r r'' :=
  ⟨h.same.trans h'.same, h'.onlyPositional.trans h.onlyPositional⟩

theorem beside_of_withValue (h : r.withValue option value = .ok r') : Beside r r' := by
  obtain ⟨g, hg, h⟩ := exists_of_bind_eq_ok h
  obtain ⟨g', hg', h⟩ := exists_of_bind_eq_ok h
  cases h
  exact ⟨(same_of_settle hg).trans (Given.same_of_set hg'), rfl⟩

theorem beside_of_awaitValue (h : r.awaitValue option = .ok r') : Beside r r' := by
  obtain ⟨g, hg, h⟩ := exists_of_bind_eq_ok h
  cases h
  exact ⟨same_of_settle hg, rfl⟩

theorem beside_of_withFlag (h : r.withFlag option = .ok r') : Beside r r' := by
  obtain ⟨g, hg, h⟩ := exists_of_bind_eq_ok h
  obtain ⟨g', hg', h⟩ := exists_of_bind_eq_ok h
  cases h
  exact ⟨(same_of_settle hg).trans (Given.same_of_flag hg'), rfl⟩

theorem beside_of_long {options : List OptionName} {name : List Char}
    (h : long options r name = .ok r') : Beside r r' := by
  unfold long at h
  dsimp only at h
  split at h
  · cases h
  · split at h
    · exact beside_of_awaitValue h
    · exact beside_of_withFlag h
  · split at h
    · exact beside_of_withValue h
    · cases h

theorem beside_of_short {options : List OptionName} {names : List Char}
    (h : short options r names = .ok r') : Beside r r' := by
  induction names generalizing r with
  | nil =>
    cases h
    exact ⟨.refl _, rfl⟩
  | cons c rest ih =>
    unfold short at h
    split at h
    · cases h
    · split at h
      · split at h
        · exact beside_of_awaitValue h
        · exact beside_of_withValue h
        · exact beside_of_withValue h
      · obtain ⟨next, hnext, h⟩ := exists_of_bind_eq_ok h
        exact (beside_of_withFlag hnext).trans (ih h)

theorem exists_of_positional (h : r.positional command word = .ok r') :
    ∃ g, r.settle = .ok g ∧ r' = { r with given := g.push word, waiting := .nothing } := by
  unfold positional at h
  split at h
  case isTrue hnone =>
    obtain ⟨g, hg, h⟩ := exists_of_bind_eq_ok h
    cases h
    rw [← (same_of_settle hg).expr?] at hnone
    exact ⟨g, hg, by rw [Given.push, if_pos hnone]⟩
  case isFalse hsome =>
    split at h
    · obtain ⟨g, hg, h⟩ := exists_of_bind_eq_ok h
      cases h
      rw [← (same_of_settle hg).expr?] at hsome
      exact ⟨g, hg, by rw [Given.push, if_neg hsome]⟩
    · cases h

/-- **One word.** It is `--`, or has to do with options, or is one more positional argument. -/
theorem feed_cases (h : r.feed command word = .ok r') :
    (word = "--" ∧ r.onlyPositional = false ∧ r' = { r with onlyPositional := true }) ∨
      Beside r r' ∨ r.positional command word = .ok r' := by
  unfold feed at h
  split at h
  case isTrue => exact Or.inr (Or.inr h)
  case isFalse honly =>
    split at h
    case h_1 hdashes =>
      cases h
      refine Or.inl ⟨?_, Bool.eq_false_iff.2 honly, rfl⟩
      rw [← String.toList_inj, hdashes]
      rfl
    case h_2 => exact Or.inr (Or.inl (beside_of_long h))
    case h_3 => exact Or.inr (Or.inl (beside_of_short h))
    case h_4 =>
      split at h
      · cases h
        exact Or.inr (Or.inl ⟨.refl _, rfl⟩)
      · exact Or.inr (Or.inr h)

/-- The positional arguments stay in order, and a word makes one more of them at most. -/
theorem positionals_of_feed (h : r.feed command word = .ok r') (hin : r.given.InOrder) :
    r'.given.InOrder ∧ (r'.given.positionals = r.given.positionals ∨
      r'.given.positionals = r.given.positionals ++ [word]) := by
  rcases feed_cases h with ⟨_, _, rfl⟩ | hbeside | hpositional
  · exact ⟨hin, Or.inl rfl⟩
  · exact ⟨hbeside.same.inOrder hin, Or.inl hbeside.same.positionals_eq⟩
  · obtain ⟨g, hg, rfl⟩ := exists_of_positional hpositional
    have hsame := same_of_settle hg
    refine ⟨Given.inOrder_push (hsame.inOrder hin) word, Or.inr ?_⟩
    show (g.push word).positionals = _
    rw [Given.positionals_push (hsame.inOrder hin), hsame.positionals_eq]

/-- Only `--` makes all that follows positional. -/
theorem onlyPositional_of_feed (h : r.feed command word = .ok r') (hword : word ≠ "--") :
    r'.onlyPositional = r.onlyPositional := by
  rcases feed_cases h with ⟨hdashes, _⟩ | hbeside | hpositional
  · exact absurd hdashes hword
  · exact hbeside.onlyPositional
  · obtain ⟨g, _, rfl⟩ := exists_of_positional hpositional
    rfl

/-! ## All words -/

theorem positionals_of_feedAll (h : words.foldlM (feed command) r = .ok r') (hin : r.given.InOrder) :
    r'.given.InOrder ∧ ∃ taken, taken.Sublist words ∧
      r'.given.positionals = r.given.positionals ++ taken := by
  induction words generalizing r with
  | nil =>
    cases h
    exact ⟨hin, [], .slnil, (List.append_nil _).symm⟩
  | cons word words ih =>
    rw [List.foldlM_cons] at h
    obtain ⟨next, hnext, h⟩ := exists_of_bind_eq_ok h
    obtain ⟨hinNext, hpositionals⟩ := positionals_of_feed hnext hin
    obtain ⟨hin', taken, hsub, htaken⟩ := ih h hinNext
    refine ⟨hin', ?_⟩
    rcases hpositionals with heq | heq
    · exact ⟨taken, hsub.cons word, by rw [htaken, heq]⟩
    · exact ⟨word :: taken, hsub.cons_cons word, by rw [htaken, heq, List.append_assoc]; rfl⟩

theorem onlyPositional_of_feedAll (h : words.foldlM (feed command) r = .ok r')
    (hwords : "--" ∉ words) : r'.onlyPositional = r.onlyPositional := by
  induction words generalizing r with
  | nil =>
    cases h
    rfl
  | cons word words ih =>
    rw [List.foldlM_cons] at h
    obtain ⟨next, hnext, h⟩ := exists_of_bind_eq_ok h
    obtain ⟨hword, hwords⟩ := List.ne_and_not_mem_of_not_mem_cons hwords
    exact (ih h hwords).trans (onlyPositional_of_feed hnext hword.symm)

theorem feed_dashes (h : r.onlyPositional = false) :
    r.feed command "--" = .ok { r with onlyPositional := true } := by
  unfold feed
  rw [h]
  rfl

theorem feed_of_onlyPositional (honly : r.onlyPositional = true) (h : r.settle = .ok g) (word : String) :
    r.feed .tryInputs word = .ok { r with given := g.push word, waiting := .nothing } := by
  have hexpr : r.given.expr?.isNone = g.expr?.isNone := by rw [(same_of_settle h).expr?]
  unfold feed positional Given.push
  rw [if_pos honly, hexpr, if_pos rfl, h]
  split <;> rfl

theorem feedAll_of_onlyPositional (honly : r.onlyPositional = true) (h : r.settle = .ok g)
    (words : List String) : ∃ r', words.foldlM (feed .tryInputs) r = .ok r' ∧
      r'.settle = .ok (words.foldl Given.push g) := by
  induction words generalizing r g with
  | nil => exact ⟨r, rfl, h⟩
  | cons word words ih =>
    rw [List.foldlM_cons, feed_of_onlyPositional honly h word]
    exact ih honly rfl

end Reading

/-! ## The words of a command -/

/-- What the words of a command come to. -/
def Gives (command : CommandName) (words : List String) (g : Given) : Prop :=
  ∃ r, words.foldlM (Reading.feed command) {} = .ok r ∧ r.settle = .ok g

namespace Gives

/-- A command line is understood if its words come to something that makes an invocation. -/
theorem readCommand_eq (h : Gives command words g) (verbosity : Nat) :
    readCommand command verbosity words = invocation command verbosity g := by
  obtain ⟨r, hr, hg⟩ := h
  unfold readCommand
  rw [hr]
  show r.settle >>= _ = _
  rw [hg]
  rfl

theorem inOrder (h : Gives command words g) : g.InOrder := by
  obtain ⟨r, hr, hg⟩ := h
  exact (Reading.same_of_settle hg).inOrder (Reading.positionals_of_feedAll hr fun _ => rfl).1

/-- **No positional argument is lost, given twice or moved.** They are some of the words, in the same
order. -/
theorem positionals_sublist (h : Gives command words g) : g.positionals.Sublist words := by
  obtain ⟨r, hr, hg⟩ := h
  obtain ⟨_, taken, hsub, htaken⟩ := Reading.positionals_of_feedAll hr fun _ => rfl
  rw [(Reading.same_of_settle hg).positionals_eq, htaken]
  exact hsub

/-- **Behind two dashes** all words are positional arguments, and change nothing else. -/
theorem append_dashes (h : Gives .tryInputs words g) (hwords : "--" ∉ words) (behind : List String) :
    ∃ g', Gives .tryInputs (words ++ "--" :: behind) g' ∧
      g'.positionals = g.positionals ++ behind ∧ g'.options = g.options := by
  have hin := h.inOrder
  obtain ⟨r, hr, hg⟩ := h
  have honly := Reading.onlyPositional_of_feedAll hr hwords
  obtain ⟨r', hr', hg'⟩ :=
    Reading.feedAll_of_onlyPositional (r := { r with onlyPositional := true }) rfl hg behind
  refine ⟨_, ⟨r', ?_, hg'⟩, Given.positionals_foldl_push hin behind, Given.options_foldl_push g behind⟩
  rw [List.foldlM_append, hr]
  show ("--" :: behind).foldlM (Reading.feed .tryInputs) r = .ok r'
  rw [List.foldlM_cons, Reading.feed_dashes honly]
  exact hr'

end Gives

end FiniteAutomata.CommandLine
