import FiniteAutomata.Proofs.CommandLine.Positionals
import FiniteAutomata.Proofs.CommandLine.Source
import FiniteAutomata.Proofs.Text.Quoted
/-!
# Verdicts on inputs

What is printed when inputs are tried, and the exit status, are said in terms of the language of the
expression alone (`Reports`). That a session gives them has three parts. A text between quotes stays on
one line (`Quoted.newline_not_mem_text`), so each input has a line of its own. The automata of all
stages give the same verdicts (`Pattern.IsCompiled.exists_verdicts`), so the stage does not show
(`perform_tryInputs`). And the words of a command line come to an expression and inputs in one of two
ways (`Given.Asks`), which make the same task on the same text (`Given.Asks.exists_invocation`).

Main statement: `tryInputs_reports`.
-/

namespace FiniteAutomata

namespace CommandLine

variable {isPostfix : Bool} {c : String} {p : Pattern} {inputs : List String} {g : Given}
  {contents : String → Except FileError ByteArray}

/-! ## The text of the expression -/

/-- The word belongs to the language of an expression text, which is in postfix order or infix text. -/
def TextDenotes (isPostfix : Bool) (text : String) (word : List Char) : Prop :=
  if isPostfix then ∃ tokens, PostfixText.read text = .ok tokens ∧ Token.Denote tokens word
  else Grammar.Denotes text word

theorem textDenotes_iff
    (h : (if isPostfix then Pattern.ofPostfix c else Pattern.ofInfix c) = .ok p) :
    p.IsCompiled ∧ ∀ word, TextDenotes isPostfix c word ↔ Token.Denote p.tokens word := by
  cases isPostfix with
  | true =>
    obtain ⟨hread, hcompiled⟩ : PostfixText.read c = .ok p.tokens ∧ p.IsCompiled :=
      Pattern.isCompiled_of_reading h
    refine ⟨hcompiled, fun word => ⟨?_, fun hword => ⟨_, hread, hword⟩⟩⟩
    rintro ⟨tokens, htokens, hword⟩
    rwa [← Except.ok.inj (htokens.symm.trans hread)]
  | false =>
    obtain ⟨hread, hcompiled⟩ : InfixText.tokens c = .ok p.tokens ∧ p.IsCompiled :=
      Pattern.isCompiled_of_reading h
    exact ⟨hcompiled, InfixText.denotes_iff_denote hread⟩

/-! ## What is asked for -/

/-- What is given asks to try inputs on the expression `c`. -/
inductive Given.Asks (contents : String → Except FileError ByteArray) (g : Given) (c : String)
    (inputs : List String) : Prop where
  /-- The expression is the first positional argument, and the inputs are the others. -/
  | inline (file?_eq : g.file? = none) (positionals_eq : g.positionals = c :: inputs)
  /-- The expression is what a file holds before the line breaks at its end, and the inputs are all
  the positional arguments. -/
  | file {path breaks : String} (file?_eq : g.file? = some path)
    (content : contents path = .ok (c ++ breaks).toUTF8)
    (breaks_only : ∀ b ∈ breaks.toList, Source.isLineBreak b = true)
    (last_ne : ∀ b ∈ c.toList.getLast?, Source.isLineBreak b = false)
    (positionals_eq : g.positionals = inputs)

theorem Given.InOrder.of_positionals (h : g.InOrder) :
    g.expr? = g.positionals.head? ∧ g.inputs.toList = g.positionals.tail := by
  unfold positionals
  cases hexpr : g.expr? with
  | none => simp [h hexpr]
  | some first => exact ⟨rfl, rfl⟩

/-- **Both ways** make the same task on the same text. -/
theorem Given.Asks.exists_invocation (h : g.Asks contents c inputs) (hin : g.InOrder) (verbosity : Nat) :
    ∃ inv, invocation .tryInputs verbosity g = .ok inv ∧
      inv.task = .tryInputs (g.stage?.getD default) inputs ∧ inv.source.text contents = .ok c ∧
      inv.source.isPostfix = g.isPostfix ∧ inv.color = g.color?.getD default := by
  unfold invocation
  rw [if_neg fun hconflict => hconflict.1 rfl]
  cases h with
  | inline hfile hpositionals =>
    obtain ⟨hexpr, hinputs⟩ := hin.of_positionals
    rw [hpositionals] at hexpr hinputs
    refine ⟨_, rfl, ?_, ?_, rfl, rfl⟩
    · show Task.tryInputs _ (if g.file?.isSome then _ else g.inputs.toList) = _
      rw [hfile, hinputs]
      rfl
    · show Source.text ⟨if g.file?.isSome then none else g.expr?, g.file?, g.isPostfix⟩ contents = _
      rw [hfile, hexpr]
      rfl
  | file hfile hcontent hbreaks hlast hpositionals =>
    refine ⟨_, rfl, ?_, ?_, rfl, rfl⟩
    · show Task.tryInputs _ (if g.file?.isSome then g.positionals else _) = _
      rw [hfile, hpositionals]
      rfl
    · show Source.text ⟨if g.file?.isSome then none else g.expr?, g.file?, g.isPostfix⟩ contents = _
      rw [hfile]
      rw [← Source.dropLineBreaks_eq_self hlast]
      exact Source.text_of_file hcontent hbreaks

/-! ## What is printed -/

/-- The line of an input, its verdict first. -/
def verdict (input : String) (accepted : Bool) : String :=
  (if accepted then "match    " else "no match ") ++ Quoted.text input

theorem verdictLine_off (input : String) (accepted : Bool) :
    verdictLine .off input accepted = verdict input accepted ++ "\n" := by
  unfold verdictLine verdict
  cases accepted <;> rfl

theorem newline_not_mem_verdict (input : String) (accepted : Bool) :
    '\n' ∉ (verdict input accepted).toList := by
  unfold verdict
  rw [String.toList_append, List.mem_append, not_or]
  refine ⟨?_, Quoted.newline_not_mem_text input⟩
  cases accepted <;> decide

/-- The line of an input says whether it belongs to a language, and then which input it is. -/
structure IsVerdict (L : List Char → Prop) (input line : String) : Prop where
  oneLine : '\n' ∉ line.toList
  accepted : L input.toList → line = "match    " ++ Quoted.text input
  rejected : ¬ L input.toList → line = "no match " ++ Quoted.text input

/-- Lines for the inputs, one each and in order, and an exit status that says whether one of them does
not belong to a language. -/
structure Reports (L : List Char → Prop) (inputs : List String) (stdout : String) (status : Nat) :
    Prop where
  lines : ∃ lines : List String, stdout = String.join (lines.map (· ++ "\n")) ∧
    List.Forall₂ (IsVerdict L) inputs lines
  rejects : status = 2 ↔ ∃ input ∈ inputs, ¬ L input.toList
  accepts : status = 0 ↔ ∀ input ∈ inputs, L input.toList

/-- How trying inputs ends. -/
def exitOf (accepted : String → Bool) (inputs : List String) : Exit :=
  if inputs.all accepted then .success else .rejection

/-- What trying inputs prints. -/
def printed (accepted : String → Bool) (inputs : List String) : String :=
  String.join ((inputs.map fun input => verdict input (accepted input)).map (· ++ "\n"))

theorem isVerdict_verdict {L : List Char → Prop} {input : String} {accepted : Bool}
    (h : accepted = true ↔ L input.toList) : IsVerdict L input (verdict input accepted) := by
  refine ⟨newline_not_mem_verdict input accepted, fun hmem => ?_, fun hmem => ?_⟩
  · rw [h.2 hmem]
    rfl
  · rw [Bool.eq_false_iff.2 fun htrue => hmem (h.1 htrue)]
    rfl

/-- Verdicts that decide a language make a report on it. -/
theorem reports_printed {L : List Char → Prop} {accepted : String → Bool}
    (h : ∀ input, accepted input = true ↔ L input.toList) (inputs : List String) :
    Reports L inputs (printed accepted inputs) (exitOf accepted inputs).code := by
  have hlines : List.Forall₂ (IsVerdict L) inputs
      (inputs.map fun input => verdict input (accepted input)) := by
    rw [List.forall₂_map_right_iff, List.forall₂_same]
    exact fun input _ => isVerdict_verdict (h input)
  have hall : inputs.all accepted = true ↔ ∀ input ∈ inputs, L input.toList := by
    rw [List.all_eq_true]
    exact forall₂_congr fun input _ => h input
  unfold exitOf
  split
  case isTrue htrue =>
    have haccepts := hall.1 htrue
    refine ⟨⟨_, rfl, hlines⟩, ⟨fun hcode => ?_, ?_⟩, ⟨fun _ => haccepts, fun _ => rfl⟩⟩
    · cases hcode
    · rintro ⟨input, hmem, hnot⟩
      exact absurd (haccepts input hmem) hnot
  case isFalse hfalse =>
    have hrejects : ∃ input ∈ inputs, ¬ L input.toList := by
      by_contra hnone
      exact hfalse (hall.2 fun input hmem => by_contra fun hnot => hnone ⟨input, hmem, hnot⟩)
    refine ⟨⟨_, rfl, hlines⟩, ⟨fun _ => hrejects, fun _ => rfl⟩, ⟨fun hcode => ?_, fun haccepts => ?_⟩⟩
    · cases hcode
    · exact absurd (hall.2 haccepts) hfalse

theorem perform_tryInputs_of_palette {accepted : String → Bool} {stage : Stage}
    (h : ∀ input, (p.stage stage).accepts input.toList = .ok (accepted input)) (inputs : List String)
    (palette : Palette) (level : Level) :
    ∃ log, (Task.tryInputs stage inputs).perform p palette level =
      .ok ⟨exitOf accepted inputs,
        String.join (List.zipWith (verdictLine palette) inputs (inputs.map accepted)), log, none⟩ := by
  have hverdicts : (inputs.mapM fun input => (p.stage stage).accepts input.toList) =
      .ok (inputs.map accepted) := mapM_eq_ok fun input _ => h input
  have hexit : (if (inputs.map accepted).count false = 0 then Exit.success else .rejection) =
      exitOf accepted inputs := by
    unfold exitOf
    refine if_congr ?_ rfl rfl
    rw [List.count_eq_zero, List.all_eq_true, List.mem_map]
    simp
  unfold Task.perform
  simp only [hverdicts]
  exact ⟨_, by rw [← hexit]; rfl⟩

theorem perform_tryInputs {accepted : String → Bool} {stage : Stage}
    (h : ∀ input, (p.stage stage).accepts input.toList = .ok (accepted input)) (inputs : List String)
    (level : Level) :
    ∃ log, (Task.tryInputs stage inputs).perform p .off level =
      .ok ⟨exitOf accepted inputs, printed accepted inputs, log, none⟩ := by
  have hprinted : String.join (List.zipWith (verdictLine .off) inputs (inputs.map accepted)) =
      printed accepted inputs := by
    unfold printed
    rw [List.zipWith_map_right, List.zipWith_self, List.map_map]
    simp only [verdictLine_off]
    rfl
  rw [← hprinted]
  exact perform_tryInputs_of_palette h inputs .off level

/-! ## Sessions -/

/-- **Faithful reports.** Let an expression text make a pattern. What is printed for some inputs is a
line for each of them, in order, with the verdict that the language of the text has on it, and the exit
status says whether one of them is rejected. That depends on the text and the inputs alone: not on the
stage, nor on where the text comes from, nor on the order of options and positional arguments. -/
theorem tryInputs_reports
    (h : (if isPostfix then Pattern.ofPostfix c else Pattern.ofInfix c) = .ok p)
    (inputs : List String) :
    ∃ stdout exit, Reports (TextDenotes isPostfix c) inputs stdout exit.code ∧
      ∀ words g, Gives .tryInputs words g → g.isPostfix = isPostfix →
        ∀ contents, g.Asks contents c inputs →
          ∀ isTerminal, (g.color?.getD default).isOn isTerminal = false →
            ∀ verbosity, ∃ inv log, readFrom verbosity ("match" :: words) = .ok inv ∧
              inv.task = .tryInputs (g.stage?.getD default) inputs ∧
              inv.respond isTerminal contents = ⟨exit, stdout, log, none⟩ := by
  obtain ⟨hcompiled, hdenotes⟩ := textDenotes_iff h
  obtain ⟨accepted, hstage, haccepted⟩ := hcompiled.exists_verdicts
  refine ⟨printed accepted inputs, exitOf accepted inputs,
    reports_printed (fun input => (haccepted input).trans (hdenotes _).symm) inputs, ?_⟩
  intro words g hgives hpostfix contents hasks isTerminal hcolor verbosity
  obtain ⟨inv, hinv, htask, htext, hsource, hchoice⟩ := hasks.exists_invocation hgives.inOrder verbosity
  obtain ⟨log, hperform⟩ := perform_tryInputs (hstage (g.stage?.getD default)) inputs inv.level
  have hpattern : inv.source.pattern c = .ok p := by
    unfold Source.pattern
    rw [hsource, hpostfix]
    exact h
  refine ⟨inv, logLines inv.level (patternRecords c p) ++ log, ?_, htask, ?_⟩
  · rw [← hinv, ← hgives.readCommand_eq]
    rfl
  · unfold Invocation.respond
    simp only [htext, hpattern, htask, hchoice, hcolor]
    rw [show Palette.ofChoice false = .off from rfl, hperform]

/-- One expression, given inline and by a file, for different stages; the file name stands between the
inputs, one of which looks like an option. -/
theorem tryInputs_reports_bar :
    ∃ stdout exit, Reports (TextDenotes false "a|b") ["b", "-f"] stdout exit.code ∧
      (∃ inv log, read ["match", "--stage=nfa", "a|b", "b", "--", "-f"] = .ok inv ∧
        inv.respond false (fun _ => .error .notFound) = ⟨exit, stdout, log, none⟩) ∧
      ∃ inv log, read ["match", "b", "-fbar", "--stage", "dfa", "--color", "never", "--", "-f"] = .ok inv ∧
        inv.respond true (fun _ => .ok ("a|b" ++ "\r\n").toUTF8) = ⟨exit, stdout, log, none⟩ := by
  have htokens : InfixText.tokens "a|b" = .ok [.literal 'a', .literal 'b', .union] := by decide
  have hbreaks : ∀ b ∈ "\r\n".toList, Source.isLineBreak b = true := List.all_eq_true.1 rfl
  have hlast : ∀ b ∈ "a|b".toList.getLast?, Source.isLineBreak b = false := by
    intro b hb
    obtain rfl : 'b' = b := Option.mem_some.1 hb
    rfl
  obtain ⟨p, hp, _⟩ := Pattern.exists_of_infix htokens
  obtain ⟨stdout, exit, hreports, hsessions⟩ := @tryInputs_reports false _ _ hp ["b", "-f"]
  refine ⟨stdout, exit, hreports, ?_, ?_⟩
  · obtain ⟨inv, log, hread, _, hrespond⟩ := hsessions ["--stage=nfa", "a|b", "b", "--", "-f"]
      { expr? := some "a|b", inputs := #["b", "-f"], stage? := some .nfa } ⟨_, rfl, rfl⟩ rfl
      (fun _ => .error .notFound) (.inline rfl rfl) false rfl 0
    exact ⟨inv, log, hread, hrespond⟩
  · obtain ⟨inv, log, hread, _, hrespond⟩ :=
      hsessions ["b", "-fbar", "--stage", "dfa", "--color", "never", "--", "-f"]
        { expr? := some "b", inputs := #["-f"], file? := some "bar", stage? := some .dfa
          color? := some .never } ⟨_, rfl, rfl⟩ rfl
        (fun _ => .ok ("a|b" ++ "\r\n").toUTF8) (.file rfl rfl hbreaks hlast rfl) true rfl 0
    exact ⟨inv, log, hread, hrespond⟩

end CommandLine

end FiniteAutomata
