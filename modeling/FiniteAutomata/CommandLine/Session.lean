import FiniteAutomata.CommandLine.Directory
import FiniteAutomata.CommandLine.Invocation
import FiniteAutomata.Dot
import FiniteAutomata.Dump
import FiniteAutomata.Snippet
/-!
# Sessions

What an invocation does. The text of its expression is read first, then the pattern is made, then the
task is performed on it. What stands in the way is reported in one place and ends the session with
nothing printed and nothing written.

`respond` gives all that is printed, and names the file that is still to be written; `Outcome.finish`
writes it, and takes account of how that went. `session` does both on a host, which has the files.
-/

namespace FiniteAutomata.CommandLine

/-! ## The text of the expression -/

/-- Why there is no text of an expression. -/
inductive LoadError where
  /-- Neither a text nor a file is given. -/
  | nothingGiven
  /-- The file cannot be read. -/
  | unreadable (path : String) (cause : FileError)
  deriving DecidableEq, Repr

namespace LoadError

/-- The cause in one line. -/
def message : LoadError → String
  | nothingGiven => "expression is required: use positional argument or -f/--file"
  | unreadable path cause =>
    "failed to read " ++ (if path = standardInput then "stdin" else path) ++ ": " ++ cause.message

end LoadError

namespace Source

/-- The text of a file. -/
def decode (content : ByteArray) : Except FileError String :=
  match String.fromUTF8? content with
  | some text => .ok text
  | none => .error .invalidText

/-- A line feed or a carriage return. -/
def isLineBreak (c : Char) : Bool := c = '\n' || c = '\r'

/-- A text without the line breaks at its end. -/
def dropLineBreaks (text : String) : String :=
  String.ofList (text.toList.reverse.dropWhile isLineBreak).reverse

/-- The text of the expression, where `contents` are those of files. A text from a file ends before
the line breaks at its end; one given inline is taken as it is. -/
def text (source : Source) (contents : String → Except FileError ByteArray) : Except LoadError String :=
  match source.text?, source.file? with
  | some text, _ => .ok text
  | none, none => .error .nothingGiven
  | none, some path =>
    match contents path >>= decode with
    | .ok text => .ok (dropLineBreaks text)
    | .error cause => .error (.unreadable path cause)

/-- Read the content that the text of the expression is taken from. Where the text is given inline, or no
file is given, none is read, and the answer means nothing. -/
def fetch {m : Type → Type} [Monad m] (source : Source) (host : Host m) : m (Except FileError ByteArray) :=
  match source.text?, source.file? with
  | none, some path => host.contentAt path
  | _, _ => return .error .notFound

/-- The pattern of the expression. -/
def pattern (source : Source) (text : String) : Except BuildError Pattern :=
  if source.isPostfix then Pattern.ofPostfix text else Pattern.ofInfix text

end Source

/-! ## Outcomes -/

/-- How a session ends. -/
inductive Exit where
  | success
  /-- Something stood in the way, and was reported. -/
  | failure
  /-- An input was rejected. -/
  | rejection
  /-- An automaton was not put together rightly. -/
  | fault
  deriving DecidableEq, Repr

/-- The exit status. -/
def Exit.code : Exit → Nat
  | success => 0
  | failure => 1
  | rejection => 2
  | fault => 101

/-- What a session leaves behind. -/
structure Outcome where
  exit : Exit
  stdout : String
  stderr : String
  /-- A file that is still to be written, and its text. -/
  file? : Option (String × String)
  deriving DecidableEq, Repr

/-- A line that reports an error. -/
def errorLine (message : String) : String := "error: " ++ message ++ "\n"

/-- The lines of a log. -/
def logLines (level : Level) (records : List Record) : String :=
  String.join ((Journal.shownAt level records).map Record.line)

namespace Outcome

/-- Nothing is printed but the report of an error. -/
def failed (stderr : String) : Outcome := ⟨.failure, "", stderr, none⟩

/-- An automaton was not put together rightly. -/
def faulty : Outcome := ⟨.fault, "", errorLine "inconsistent automaton", none⟩

/-- The outcome when its file was written, or why it could not be. -/
def settle (o : Outcome) (level : Level) (written : Except FileError Unit) : Outcome :=
  match o.file?, written with
  | none, _ => o
  | some (path, _), .ok () =>
    let note : Record := { level := .info, target := "fsmith::commands::dot", text := "wrote " ++ path }
    { o with stderr := o.stderr ++ logLines level [note], file? := none }
  | some (path, _), .error cause =>
    ⟨.failure, "", o.stderr ++ errorLine ("failed to write " ++ path ++ ": " ++ cause.message), none⟩

/-- Write the file of the outcome, if there is one, and take account of how that went. -/
def finish {m : Type → Type} [Monad m] (o : Outcome) (host : Host m) (level : Level) : m Outcome :=
  match o.file? with
  | none => return o
  | some (path, text) => return o.settle level (← host.write path text)

end Outcome

/-! ## Tasks -/

/-- The line of an input that was tried. -/
def verdictLine (palette : Palette) (input : String) (accepted : Bool) : String :=
  (if accepted then palette.green ++ "match" ++ palette.reset ++ "   "
    else palette.red ++ "no match" ++ palette.reset) ++ " " ++ Quoted.text input ++ "\n"

/-- What the inputs came to. -/
def rejectionRecord (stage : Stage) (rejected count : Nat) : Record :=
  { level := .debug
    target := "fsmith::commands::matching"
    text := rejected.repr ++ " of " ++ count.repr ++ " inputs rejected by the " ++ stage.name ++
      " automaton" }

namespace Task

/-- What a task on a pattern leaves behind. -/
def perform (task : Task) (pattern : Pattern) (palette : Palette) (level : Level) : Checked Outcome :=
  match task with
  | printPostfix => .ok ⟨.success, pattern.postfixText ++ "\n", "", none⟩
  | dump stage showsSubsets => do
    return ⟨.success, ← (pattern.stage stage).dump { palette, showsSubsets }, "", none⟩
  | dot stage output? =>
    let text := (pattern.stage stage).dot stage.name
    match output? with
    | none => .ok ⟨.success, text, "", none⟩
    | some path => .ok ⟨.success, "", "", some (path, text)⟩
  | tryInputs stage inputs => do
    let verdicts ← inputs.mapM fun input => (pattern.stage stage).accepts input.toList
    let rejected := verdicts.count false
    return {
      exit := if rejected = 0 then .success else .rejection
      stdout := String.join (List.zipWith (verdictLine palette) inputs verdicts)
      stderr := logLines level [rejectionRecord stage rejected inputs.length]
      file? := none }

end Task

/-! ## Sessions -/

/-- What there is to say about a pattern that was made from a text. -/
def patternRecords (text : String) (pattern : Pattern) : List Record :=
  let target := "fsmith::commands::expr_loader"
  let remark : List Record :=
    if pattern.isEmptyExpression then
      [{ level := .warn, target, text := "empty expression: only the empty string matches" }]
    else []
  Journal.ofPattern pattern ++ remark ++
    [{ level := .debug, target
       text := "compiled " ++ Quoted.text text ++ " to postfix " ++ Quoted.text pattern.postfixText }]

/-- The outcome when an expression gives no automaton. -/
def rejected (cause : BuildError) (text : String) (colored : Bool) : Outcome :=
  match cause with
  | .text cause =>
    match Snippet.render? cause text colored with
    | some snippet => .failed (snippet ++ "\n")
    | none => .faulty
  | .malformed .. => .failed (errorLine cause.message)
  | .fault _ => .faulty

namespace Invocation

/-- All that a session prints, and the file that it is to write. -/
def respond (inv : Invocation) (isTerminal : Bool) (contents : String → Except FileError ByteArray) :
    Outcome :=
  let colored := inv.color.isOn isTerminal
  match inv.source.text contents with
  | .error cause => .failed (errorLine cause.message)
  | .ok text =>
    match inv.source.pattern text with
    | .error cause => rejected cause text colored
    | .ok pattern =>
      match inv.task.perform pattern (Palette.ofChoice colored) inv.level with
      | .error _ => .faulty
      | .ok done => { done with stderr := logLines inv.level (patternRecords text pattern) ++ done.stderr }

/-- A session on a host. It writes nothing before all else is done. -/
def session {m : Type → Type} [Monad m] (inv : Invocation) (host : Host m) (isTerminal : Bool) :
    m Outcome := do
  let content ← inv.source.fetch host
  (inv.respond isTerminal fun _ => content).finish host inv.level

/-- A session off the terminal, on the host of a directory: its outcome, and the directory behind it. -/
def run (inv : Invocation) (directory : Directory) (stdin : ByteArray) : Outcome × Directory :=
  (inv.session (Directory.host stdin) false).run directory

end Invocation

end FiniteAutomata.CommandLine
