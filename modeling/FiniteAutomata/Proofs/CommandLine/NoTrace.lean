import FiniteAutomata.Proofs.CommandLine.Verdicts
import FiniteAutomata.Proofs.Dump
import FiniteAutomata.Proofs.Snippet
/-!
# Failures leave no trace

There are four reasons why nothing can be made of an expression (`Source.Fails`). Each of them is met before
anything is printed or written, and each can be reported: the span of a cause lies in its text, so the cause
can be shown (`Source.exists_rejected`). What the tasks ask of a pattern is always answered, so the exit
status of a session with a pattern says what its task came to (`Invocation.Ends`). And the one file that a
session writes is the one that its task names (`Invocation.IsOutput`).

The system is any host whose reads change no file and whose writes change no other file than the one that
they name (`Host.Lawful`).

Main statement: `Invocation.session_leaves_no_trace`.
-/

namespace FiniteAutomata.CommandLine

variable {contents : String → Except FileError ByteArray} {σ File : Type} {host : Host (StateM σ)}
  {disk : σ → Disk File} {before s : σ} {text : String} {p : Pattern}

namespace Source

variable {source : Source}

/-! ## Expressions that make nothing -/

/-- Nothing can be made of the expression. -/
inductive Fails (source : Source) (contents : String → Except FileError ByteArray) : Prop
  | missing (text?_eq : source.text? = none) (file?_eq : source.file? = none)
  | unreadable {path : String} {cause : FileError} (text?_eq : source.text? = none)
    (file?_eq : source.file? = some path) (content_eq : contents path = .error cause)
  | notText {path : String} {content : ByteArray} (text?_eq : source.text? = none)
    (file?_eq : source.file? = some path) (content_eq : contents path = .ok content)
    (invalid : ¬ content.IsValidUTF8)
  | notCompiled {text : String} {cause : BuildError} (text_eq : source.text contents = .ok text)
    (pattern_eq : source.pattern text = .error cause)

theorem decode_eq_error_iff {content : ByteArray} {cause : FileError} :
    decode content = .error cause ↔ ¬ content.IsValidUTF8 ∧ cause = .invalidText := by
  unfold decode String.fromUTF8?
  by_cases h : content.IsValidUTF8
  · simp [h]
  · simp [h, eq_comm]

theorem fails_of_text_eq_error {cause : LoadError} (h : source.text contents = .error cause) :
    source.Fails contents := by
  unfold text at h
  cases htext : source.text? with
  | some text =>
    simp only [htext] at h
    cases h
  | none =>
    cases hfile : source.file? with
    | none => exact .missing htext hfile
    | some path =>
      cases hcontent : contents path with
      | error cause => exact .unreadable htext hfile hcontent
      | ok content =>
        cases hdecode : decode content with
        | ok text =>
          have hread : contents path >>= decode = .ok text := by rw [hcontent, ← hdecode]; rfl
          simp only [htext, hfile, hread] at h
          cases h
        | error cause => exact .notText htext hfile hcontent (decode_eq_error_iff.1 hdecode).1

theorem Fails.text_or_pattern (h : source.Fails contents) :
    (∃ cause, source.text contents = .error cause) ∨
      ∃ text cause, source.text contents = .ok text ∧ source.pattern text = .error cause := by
  have hread : ∀ {path cause}, source.text? = none → source.file? = some path →
      contents path >>= decode = .error cause → ∃ cause, source.text contents = .error cause := by
    intro path cause htext hfile hcontent
    unfold text
    simp only [htext, hfile, hcontent]
    exact ⟨_, rfl⟩
  cases h with
  | missing htext hfile =>
    refine Or.inl ⟨.nothingGiven, ?_⟩
    unfold text
    simp only [htext, hfile]
  | unreadable htext hfile hcontent => exact Or.inl (hread htext hfile (by rw [hcontent]; rfl))
  | notText htext hfile hcontent hinvalid =>
    have hdecode := decode_eq_error_iff.2 ⟨hinvalid, rfl⟩
    exact Or.inl (hread htext hfile (by rw [hcontent]; exact hdecode))
  | notCompiled htext hpattern => exact Or.inr ⟨_, _, htext, hpattern⟩

theorem exists_pattern_of_not_fails (h : ¬ source.Fails contents) :
    ∃ text p, source.text contents = .ok text ∧ source.pattern text = .ok p := by
  cases htext : source.text contents with
  | error cause => exact absurd (fails_of_text_eq_error htext) h
  | ok text =>
    cases hpattern : source.pattern text with
    | error cause => exact absurd (.notCompiled htext hpattern) h
    | ok p => exact ⟨text, p, rfl, hpattern⟩

/-! ## Causes can be reported -/

theorem exists_slice_of_reading {cause : SyntaxError} (h : source.reading text = .error cause) :
    ∃ piece, slice? text.toList cause.span = some piece ∧ piece ≠ [] := by
  unfold reading at h
  split at h
  · obtain ⟨hodd, rfl⟩ := PostfixText.read_eq_error_iff.1 h
    obtain ⟨init, hinit, _⟩ := Lexeme.exists_of_odd_trailingBackslashes hodd
    have hlength : byteLength (init ++ ['\\']) = byteLength init + 1 := by
      rw [byteLength_append]
      rfl
    refine ⟨['\\'], slice?_eq_some_iff.2 ⟨init, [], by rw [hinit, List.append_nil], ?_, ?_⟩, by simp⟩
    · show byteLength text.toList - 1 = _
      rw [hinit, hlength, Nat.add_sub_cancel]
    · show byteLength text.toList = _
      rw [hinit]
  · have hblames := InfixText.blames_of_ofLexemes (fun l hl => (Lexeme.mem_ofText.1 hl).2) h
    exact exists_slice_of_holdsOf (holdsOf_of_blames hblames)

/-- **Reports.** Whatever the cause why a text makes no pattern, it is reported as a failure. -/
theorem exists_rejected {cause : BuildError} (h : source.pattern text = .error cause) (colored : Bool) :
    ∃ report, rejected cause text colored = .failed report := by
  cases cause with
  | text cause =>
    obtain ⟨piece, hpiece, hne⟩ := exists_slice_of_reading (pattern_eq_error_iff.1 h)
    obtain ⟨snippet, hsnippet⟩ := Snippet.exists_render hpiece hne colored
    unfold rejected
    simp only [hsnippet]
    exact ⟨_, rfl⟩
  | malformed token? position depth => exact ⟨_, rfl⟩
  | fault fault =>
    rw [pattern_eq] at h
    exact absurd h (Pattern.faultless_of_reading.1 fault)

/-! ## Reading -/

/-- The text is that of the content that was read, as if all files had been at hand. -/
theorem text_fetch (source : Source) (host : Host (StateM σ)) (before : σ) :
    source.text (fun _ => ((source.fetch host).run before).1) = source.text (host.contents before) := by
  unfold text fetch
  cases source.text? with
  | some text => rfl
  | none => cases source.file? <;> rfl

theorem disk_fetch (hlawful : host.Lawful disk) (source : Source) (before : σ) :
    disk ((source.fetch host).run before).2 = disk before := by
  unfold fetch
  split
  · exact hlawful.disk_contentAt _ before
  · rfl

end Source

/-! ## Finishing -/

namespace Outcome

variable {outcome : Outcome} {level : Level}

theorem run_finish_of_none (h : outcome.file? = none) :
    (outcome.finish host level).run s = (outcome, s) := by
  unfold finish
  rw [h]
  rfl

theorem run_finish_of_some {path drawing : String} (h : outcome.file? = some (path, drawing)) :
    (outcome.finish host level).run s =
      (outcome.settle level ((host.write path drawing).run s).1, ((host.write path drawing).run s).2) := by
  unfold finish
  rw [h]
  rfl

end Outcome

namespace Invocation

variable {inv : Invocation} {isTerminal : Bool}

theorem respond_of_fails (h : inv.source.Fails contents) (isTerminal : Bool) :
    ∃ report, inv.respond isTerminal contents = .failed report := by
  unfold respond
  rcases h.text_or_pattern with ⟨cause, htext⟩ | ⟨text, cause, htext, hpattern⟩
  · simp only [htext]
    exact ⟨_, rfl⟩
  · simp only [htext, hpattern]
    exact Source.exists_rejected hpattern _

/-! ## Sessions with a pattern -/

/-- An input is tried that does not belong to the language of the text. -/
def Rejects (inv : Invocation) (text : String) : Prop :=
  ∃ stage inputs, inv.task = .tryInputs stage inputs ∧
    ∃ input ∈ inputs, ¬ TextDenotes inv.source.isPostfix text input.toList

/-- A drawing of the pattern is to be written, and the host cannot write it. -/
def WriteFails (inv : Invocation) (host : Host (StateM σ)) (s : σ) (p : Pattern) : Prop :=
  ∃ stage path, inv.task = .dot stage (some path) ∧
    ∃ cause, ((host.write path ((p.stage stage).dot stage.name)).run s).1 = .error cause

/-- The file is the one that is to be written. -/
def IsOutput (inv : Invocation) (disk : Disk File) (file : File) : Prop :=
  ∃ stage path, inv.task = .dot stage (some path) ∧ disk.target? path = some file

/-- How a session ends that has read a text and made a pattern of it: the exit status says what the task
came to, and nothing is printed when the drawing is not written. -/
structure Ends (inv : Invocation) (host : Host (StateM σ)) (s : σ) (text : String) (p : Pattern)
    (outcome : Outcome) : Prop where
  code : outcome.exit.code = 0 ∨ outcome.exit.code = 1 ∨ outcome.exit.code = 2
  rejects : outcome.exit.code = 2 ↔ inv.Rejects text
  writeFails : outcome.exit.code = 1 ↔ inv.WriteFails host s p
  silent : outcome.exit.code = 1 → outcome.stdout = ""

theorem not_rejects (h : ∀ stage inputs, inv.task ≠ .tryInputs stage inputs) : ¬ inv.Rejects text := by
  rintro ⟨stage, inputs, htask, _⟩
  exact h stage inputs htask

theorem not_writeFails (h : ∀ stage path, inv.task ≠ .dot stage (some path)) :
    ¬ inv.WriteFails host s p := by
  rintro ⟨stage, path, htask, _⟩
  exact h stage path htask

theorem rejects_iff {stage : Stage} {inputs : List String} (htask : inv.task = .tryInputs stage inputs) :
    inv.Rejects text ↔ ∃ input ∈ inputs, ¬ TextDenotes inv.source.isPostfix text input.toList := by
  constructor
  · rintro ⟨_, _, htask', hinput⟩
    cases htask.symm.trans htask'
    exact hinput
  · exact fun hinput => ⟨stage, inputs, htask, hinput⟩

theorem writeFails_iff {stage : Stage} {path : String} (htask : inv.task = .dot stage (some path)) :
    inv.WriteFails host s p ↔
      ∃ cause, ((host.write path ((p.stage stage).dot stage.name)).run s).1 = .error cause := by
  constructor
  · rintro ⟨_, _, htask', hcause⟩
    cases htask.symm.trans htask'
    exact hcause
  · exact fun hcause => ⟨stage, path, htask, hcause⟩

/-- What the task leaves behind is what the session does, but for the log. -/
theorem respond_of_perform {done : Outcome} (htext : inv.source.text contents = .ok text)
    (hpattern : inv.source.pattern text = .ok p)
    (hdone : inv.task.perform p (Palette.ofChoice (inv.color.isOn isTerminal)) inv.level = .ok done) :
    ∃ log, inv.respond isTerminal contents = { done with stderr := log } := by
  unfold respond
  simp only [htext, hpattern, hdone]
  exact ⟨_, rfl⟩

/-! ## Runs -/

/-- The state of the system when the expression was read. -/
def loaded (inv : Invocation) (host : Host (StateM σ)) (before : σ) : σ :=
  ((inv.source.fetch host).run before).2

theorem disk_loaded (hlawful : host.Lawful disk) (inv : Invocation) (before : σ) :
    disk (inv.loaded host before) = disk before :=
  inv.source.disk_fetch hlawful before

/-- A session is its response to what the files hold, which is finished when the expression was read. -/
theorem run_session (inv : Invocation) (host : Host (StateM σ)) (isTerminal : Bool) (before : σ) :
    (inv.session host isTerminal).run before =
      ((inv.respond isTerminal (host.contents before)).finish host inv.level).run (inv.loaded host before) := by
  have hrespond : inv.respond isTerminal (fun _ => ((inv.source.fetch host).run before).1) =
      inv.respond isTerminal (host.contents before) := by
    unfold respond
    rw [Source.text_fetch]
  rw [← hrespond]
  rfl

theorem run_of_perform {exit : Exit} {stdout log : String}
    (htext : inv.source.text (host.contents before) = .ok text) (hpattern : inv.source.pattern text = .ok p)
    (hdone : inv.task.perform p (Palette.ofChoice (inv.color.isOn isTerminal)) inv.level =
      .ok ⟨exit, stdout, log, none⟩) :
    ∃ log, (inv.session host isTerminal).run before =
      (⟨exit, stdout, log, none⟩, inv.loaded host before) := by
  obtain ⟨log, hrespond⟩ := respond_of_perform htext hpattern hdone
  rw [run_session, hrespond]
  exact ⟨log, rfl⟩

/-! ## How the tasks end -/

theorem ends_of_success {outcome : Outcome} (hexit : outcome.exit = .success)
    (hrejects : ¬ inv.Rejects text) (hwrite : ¬ inv.WriteFails host s p) :
    inv.Ends host s text p outcome := by
  constructor
  all_goals rw [hexit]
  case code => exact Or.inl rfl
  case rejects => exact iff_of_false (by decide) hrejects
  case writeFails => exact iff_of_false (by decide) hwrite
  case silent => exact fun h => absurd h (by decide)

theorem ends_of_failure {outcome : Outcome} (hexit : outcome.exit = .failure) (hsilent : outcome.stdout = "")
    (hrejects : ¬ inv.Rejects text) (hwrite : inv.WriteFails host s p) :
    inv.Ends host s text p outcome := by
  constructor
  case silent => exact fun _ => hsilent
  all_goals rw [hexit]
  case code => exact Or.inr (Or.inl rfl)
  case rejects => exact iff_of_false (by decide) hrejects
  case writeFails => exact iff_of_true rfl hwrite

theorem ends_dot {stage : Stage} {path : String} (htext : inv.source.text (host.contents before) = .ok text)
    (hpattern : inv.source.pattern text = .ok p) (htask : inv.task = .dot stage (some path)) :
    inv.Ends host (inv.loaded host before) text p ((inv.session host isTerminal).run before).1 := by
  have hdone : inv.task.perform p (Palette.ofChoice (inv.color.isOn isTerminal)) inv.level =
      .ok ⟨.success, "", "", some (path, (p.stage stage).dot stage.name)⟩ := by
    rw [htask]
    rfl
  have hrejects : ¬ inv.Rejects text := not_rejects (by simp [htask])
  obtain ⟨log, hrespond⟩ := respond_of_perform htext hpattern hdone
  rw [run_session, hrespond, Outcome.run_finish_of_some rfl]
  cases hwrite : ((host.write path ((p.stage stage).dot stage.name)).run (inv.loaded host before)).1 with
  | ok written =>
    refine ends_of_success rfl hrejects ?_
    rw [writeFails_iff htask, hwrite]
    rintro ⟨_, h⟩
    cases h
  | error cause => exact ends_of_failure rfl rfl hrejects ((writeFails_iff htask).2 ⟨cause, hwrite⟩)

theorem ends_tryInputs {stage : Stage} {inputs : List String}
    (htext : inv.source.text (host.contents before) = .ok text) (hpattern : inv.source.pattern text = .ok p)
    (htask : inv.task = .tryInputs stage inputs) :
    inv.Ends host (inv.loaded host before) text p ((inv.session host isTerminal).run before).1 := by
  obtain ⟨hcompiled, hdenotes⟩ := textDenotes_iff hpattern
  obtain ⟨accepted, hstage, haccepted⟩ := hcompiled.exists_verdicts
  obtain ⟨log, hdone⟩ := perform_tryInputs_of_palette (hstage stage) inputs
    (Palette.ofChoice (inv.color.isOn isTerminal)) inv.level
  rw [← htask] at hdone
  obtain ⟨log', hrun⟩ := run_of_perform htext hpattern hdone
  have hreports : Reports (TextDenotes inv.source.isPostfix text) inputs (printed accepted inputs)
      (exitOf accepted inputs).code :=
    reports_printed (fun input => (haccepted input).trans (hdenotes _).symm) inputs
  have hexit : (exitOf accepted inputs).code = 0 ∨ (exitOf accepted inputs).code = 2 := by
    unfold exitOf
    split
    · exact Or.inl rfl
    · exact Or.inr rfl
  have hone : (exitOf accepted inputs).code ≠ 1 := by omega
  rw [hrun]
  constructor
  case code => exact hexit.imp_right Or.inr
  case rejects => rw [rejects_iff htask, ← hreports.rejects]
  case writeFails => exact iff_of_false hone (not_writeFails (by simp [htask]))
  case silent => exact fun h => absurd h hone

theorem ends_session (htext : inv.source.text (host.contents before) = .ok text)
    (hpattern : inv.source.pattern text = .ok p) :
    inv.Ends host (inv.loaded host before) text p ((inv.session host isTerminal).run before).1 := by
  have hends : ∀ {stdout : String},
      inv.task.perform p (Palette.ofChoice (inv.color.isOn isTerminal)) inv.level =
        .ok ⟨.success, stdout, "", none⟩ →
      (∀ stage inputs, inv.task ≠ .tryInputs stage inputs) →
      (∀ stage path, inv.task ≠ .dot stage (some path)) →
      inv.Ends host (inv.loaded host before) text p ((inv.session host isTerminal).run before).1 := by
    intro stdout hdone htry hdot
    obtain ⟨log, hrun⟩ := run_of_perform htext hpattern hdone
    rw [hrun]
    exact ends_of_success rfl (not_rejects htry) (not_writeFails hdot)
  cases htask : inv.task with
  | printPostfix => exact hends (by rw [htask]; rfl) (by simp [htask]) (by simp [htask])
  | dump stage showsSubsets =>
    obtain ⟨listing, hlisting⟩ := (p.stage stage).dump_returns
      { palette := Palette.ofChoice (inv.color.isOn isTerminal), showsSubsets }
    have hdone : inv.task.perform p (Palette.ofChoice (inv.color.isOn isTerminal)) inv.level =
        .ok ⟨.success, listing, "", none⟩ := by
      rw [htask]
      unfold Task.perform
      simp only [hlisting]
      rfl
    exact hends hdone (by simp [htask]) (by simp [htask])
  | dot stage output? =>
    cases output? with
    | none => exact hends (by rw [htask]; rfl) (by simp [htask]) (by simp [htask])
    | some path => exact ends_dot htext hpattern htask
  | tryInputs stage inputs => exact ends_tryInputs htext hpattern htask

/-! ## The other files -/

theorem exists_dot_of_perform {task : Task} {palette : Palette} {level : Level} {done : Outcome}
    {path drawing : String} (hdone : task.perform p palette level = .ok done)
    (hfile : done.file? = some (path, drawing)) : ∃ stage, task = .dot stage (some path) := by
  cases task with
  | printPostfix =>
    cases hdone
    cases hfile
  | dump stage showsSubsets =>
    obtain ⟨listing, _, hdone⟩ := exists_of_bind_eq_ok hdone
    cases hdone
    cases hfile
  | dot stage output? =>
    cases output? with
    | none =>
      cases hdone
      cases hfile
    | some output =>
      cases hdone
      cases hfile
      exact ⟨stage, rfl⟩
  | tryInputs stage inputs =>
    obtain ⟨verdicts, _, hdone⟩ := exists_of_bind_eq_ok hdone
    cases hdone
    cases hfile

theorem exists_dot_of_respond {path drawing : String}
    (h : (inv.respond isTerminal contents).file? = some (path, drawing)) :
    ∃ stage, inv.task = .dot stage (some path) := by
  by_cases hfails : inv.source.Fails contents
  · obtain ⟨report, hrespond⟩ := respond_of_fails hfails isTerminal
    rw [hrespond] at h
    cases h
  · obtain ⟨text, p, htext, hpattern⟩ := Source.exists_pattern_of_not_fails hfails
    unfold respond at h
    simp only [htext, hpattern] at h
    cases hdone : inv.task.perform p (Palette.ofChoice (inv.color.isOn isTerminal)) inv.level with
    | error fault =>
      rw [hdone] at h
      cases h
    | ok done =>
      rw [hdone] at h
      exact exists_dot_of_perform hdone h

theorem content?_session (hlawful : host.Lawful disk) {file : File} (hfile : ¬ inv.IsOutput (disk before) file) :
    (disk ((inv.session host isTerminal).run before).2).content? file = (disk before).content? file := by
  have hloaded := disk_loaded hlawful inv before
  rw [run_session]
  cases houtput : (inv.respond isTerminal (host.contents before)).file? with
  | none => rw [Outcome.run_finish_of_none houtput, hloaded]
  | some output =>
    obtain ⟨path, drawing⟩ := output
    obtain ⟨stage, htask⟩ := exists_dot_of_respond houtput
    have htarget : (disk (inv.loaded host before)).target? path ≠ some file := by
      rw [hloaded]
      exact fun htarget => hfile ⟨stage, path, htask, htarget⟩
    rw [Outcome.run_finish_of_some houtput, hlawful.content?_write path drawing _ file htarget, hloaded]

/-- **No trace.** A session of whose expression nothing can be made exits with 1, prints nothing and leaves
all files as they are. Any other session makes a pattern; it exits with 2 if it tries an input that does not
belong to the language, with 1 and nothing printed if the host cannot write the file that it is to write, and
with 0 otherwise. No session changes another file than that one. -/
theorem session_leaves_no_trace (hlawful : host.Lawful disk) (inv : Invocation) (isTerminal : Bool)
    (before : σ) :
    (inv.source.Fails (host.contents before) →
      ((inv.session host isTerminal).run before).1.exit.code = 1 ∧
        ((inv.session host isTerminal).run before).1.stdout = "" ∧
        disk ((inv.session host isTerminal).run before).2 = disk before) ∧
    (¬ inv.source.Fails (host.contents before) →
      ∃ text p, inv.source.text (host.contents before) = .ok text ∧ inv.source.pattern text = .ok p ∧
        inv.Ends host (inv.loaded host before) text p ((inv.session host isTerminal).run before).1) ∧
    ∀ file, ¬ inv.IsOutput (disk before) file →
      (disk ((inv.session host isTerminal).run before).2).content? file = (disk before).content? file := by
  refine ⟨fun hfails => ?_, fun hfails => ?_, fun file hfile => content?_session hlawful hfile⟩
  · obtain ⟨report, hrespond⟩ := respond_of_fails hfails isTerminal
    rw [run_session, hrespond, Outcome.run_finish_of_none rfl]
    exact ⟨rfl, rfl, disk_loaded hlawful inv before⟩
  · obtain ⟨text, p, htext, hpattern⟩ := Source.exists_pattern_of_not_fails hfails
    exact ⟨text, p, htext, hpattern, ends_session htext hpattern⟩

/-- A directory with one file. -/
def oneDrawing : Directory := ⟨[("drawing", "digraph".toUTF8)]⟩

/-- An expression with an open group is not drawn over the file. One that is to be drawn over the directory
itself fails with nothing printed, and one that is drawn into another file leaves the first as it is. -/
theorem session_leaves_no_trace_drawing :
    (Directory.host .empty).Lawful Directory.disk ∧
    (∃ inv, read ["dot", "(a", "-o", "drawing"] = .ok inv ∧
      inv.source.Fails ((Directory.host .empty).contents oneDrawing) ∧
      (inv.run oneDrawing .empty).1.exit.code = 1 ∧ (inv.run oneDrawing .empty).1.stdout = "" ∧
      (inv.run oneDrawing .empty).2.disk = oneDrawing.disk) ∧
    (∃ inv, read ["dot", "-o", ".", "a"] = .ok inv ∧
      ¬ inv.source.Fails ((Directory.host .empty).contents oneDrawing) ∧
      (inv.run oneDrawing .empty).1.exit.code = 1 ∧ (inv.run oneDrawing .empty).1.stdout = "") ∧
    ∃ inv, read ["dot", "-o", "./other", "--", "a"] = .ok inv ∧ ¬ inv.IsOutput oneDrawing.disk "drawing" ∧
      (inv.run oneDrawing .empty).2.disk.content? "drawing" = oneDrawing.disk.content? "drawing" := by
  have hlawful := Directory.lawful_host .empty
  refine ⟨hlawful, ?_, ?_, ?_⟩
  · refine ⟨⟨.warn, ⟨some "(a", none, false⟩, .auto, .dot .minimal (some "drawing")⟩, rfl, ?_⟩
    have hreading : (⟨some "(a", none, false⟩ : Source).reading "(a" = .error (.unclosedGroup ⟨0, 1⟩) := by
      decide
    have hfails : Source.Fails ⟨some "(a", none, false⟩ ((Directory.host .empty).contents oneDrawing) :=
      .notCompiled rfl (Source.pattern_eq_error_iff.2 hreading)
    exact ⟨hfails, (session_leaves_no_trace hlawful _ false oneDrawing).1 hfails⟩
  · refine ⟨⟨.warn, ⟨some "a", none, false⟩, .auto, .dot .minimal (some ".")⟩, rfl, ?_⟩
    have htokens : InfixText.tokens "a" = .ok [.literal 'a'] := by decide
    have hmade : ¬ Source.Fails ⟨some "a", none, false⟩ ((Directory.host .empty).contents oneDrawing) := by
      obtain ⟨p, hp, _⟩ := Pattern.exists_of_infix htokens
      intro hfails
      rcases hfails.text_or_pattern with ⟨cause, htext⟩ | ⟨text, cause, htext, hpattern⟩
      · cases htext
      · cases htext
        cases hp.symm.trans hpattern
    obtain ⟨text, p, -, -, hends⟩ := (session_leaves_no_trace hlawful
      ⟨.warn, ⟨some "a", none, false⟩, .auto, .dot .minimal (some ".")⟩ false oneDrawing).2.1 hmade
    have hcode := hends.writeFails.2 ⟨.minimal, ".", rfl, .isDirectory, rfl⟩
    exact ⟨hmade, hcode, hends.silent hcode⟩
  · refine ⟨⟨.warn, ⟨some "a", none, false⟩, .auto, .dot .minimal (some "./other")⟩, rfl, ?_⟩
    have hplace : oneDrawing.locate "./other" = .ok (.file "other") := by decide
    have hother : ¬ Invocation.IsOutput
        ⟨.warn, ⟨some "a", none, false⟩, .auto, .dot .minimal (some "./other")⟩ oneDrawing.disk
        "drawing" := by
      rintro ⟨_, _, htask, h⟩
      cases htask
      rw [Directory.target?_disk_eq_some hplace] at h
      exact absurd (Option.some.inj h) (by decide)
    exact ⟨hother, (session_leaves_no_trace hlawful _ false oneDrawing).2.2 "drawing" hother⟩

end Invocation

end FiniteAutomata.CommandLine
