import FiniteAutomata.CommandLine.Invocation
/-!
# Arguments

Reading the words of a command line from left to right. Options may stand anywhere after the command:
`--name value`, `--name=value`, `-n value`, `-nvalue`, `-n=value`, and short ones in one word. After
`--` every word is a positional argument.

An option that takes the next word as its value waits with it: the value is looked at when the next
known option or positional argument comes, or at the end. A word that is not known, or a value for an
option that takes none, is reported before a bad value that still waits. What excludes each other is
looked at last.
-/

namespace FiniteAutomata.CommandLine

/-- Why a command line is refused, or only asks for help. -/
inductive UsageError where
  /-- Two arguments exclude each other, or an option is given twice. -/
  | argumentConflict
  /-- A value is missing, empty or not one of those allowed. -/
  | invalidValue
  /-- An option is not known, or there is a positional argument too many. -/
  | unknownArgument
  /-- A value for an option that takes none. -/
  | tooManyValues
  /-- The command is not known. -/
  | invalidSubcommand
  /-- There are options but no command. -/
  | missingSubcommand
  /-- Help is asked for. -/
  | help
  /-- There are no arguments at all. -/
  | nothingGiven
  deriving DecidableEq, Repr

/-- The commands. -/
inductive CommandName where
  | printPostfix
  | dump
  | dot
  | tryInputs
  deriving DecidableEq, Repr

/-- The command that a word names. -/
def CommandName.ofName? : String → Option CommandName
  | "postfix" => some printPostfix
  | "dump" => some dump
  | "dot" => some dot
  | "match" => some tryInputs
  | _ => none

/-- The word that asks for help on a command. -/
def helpName : String := "help"

/-- The options of all commands. -/
inductive OptionName where
  | file
  | isPostfix
  | stage
  | subsets
  | output
  | color
  | verbose
  | help
  deriving DecidableEq, Repr

namespace OptionName

/-- The name behind two dashes. -/
def long : OptionName → String
  | file => "file"
  | isPostfix => "postfix"
  | stage => "stage"
  | subsets => "subsets"
  | output => "output"
  | color => "color"
  | verbose => "verbose"
  | help => "help"

/-- The name behind one dash, if there is one. -/
def short? : OptionName → Option Char
  | file => some 'f'
  | output => some 'o'
  | verbose => some 'v'
  | help => some 'h'
  | _ => none

/-- Whether the option has a value. -/
def takesValue : OptionName → Bool
  | file | stage | output | color => true
  | _ => false

/-- The options that stand before the command. -/
def common : List OptionName := [verbose, help]

/-- The options of a command. -/
def ofCommand : CommandName → List OptionName
  | .printPostfix => [file, isPostfix, color] ++ common
  | .dump => [file, isPostfix, stage, subsets, color] ++ common
  | .dot => [file, isPostfix, stage, output, color] ++ common
  | .tryInputs => [file, isPostfix, stage, color] ++ common

end OptionName

/-! ## A command's arguments -/

/-- What the words of a command have given so far. -/
structure Given where
  expr? : Option String := none
  inputs : Array String := #[]
  file? : Option String := none
  output? : Option String := none
  stage? : Option Stage := none
  color? : Option ColorChoice := none
  isPostfix : Bool := false
  showsSubsets : Bool := false
  verbosity : Nat := 0
  deriving DecidableEq, Repr

namespace Given

/-- A file name may not be empty. -/
def fileName (value : String) : Except UsageError String :=
  if value.isEmpty then .error .invalidValue else .ok value

/-- The names of stages on a command line are the short ones. -/
def stageName (value : String) : Except UsageError Stage :=
  match Stage.ofName? value with
  | some s => if s.name = value then .ok s else .error .invalidValue
  | none => .error .invalidValue

/-- The choice that a value of the colour option names. -/
def colorName (value : String) : Except UsageError ColorChoice :=
  match ColorChoice.ofName? value with
  | some c => .ok c
  | none => .error .invalidValue

/-- What `read` makes of the value, if the option was not given before. -/
def once {α : Type} (before : Option α) (read : Except UsageError α) : Except UsageError (Option α) :=
  if before.isSome then .error .argumentConflict else read.map some

/-- An option with its value. -/
def set (g : Given) (option : OptionName) (value : String) : Except UsageError Given :=
  match option with
  | .file => return { g with file? := ← once g.file? (fileName value) }
  | .output => return { g with output? := ← once g.output? (fileName value) }
  | .stage => return { g with stage? := ← once g.stage? (stageName value) }
  | .color => return { g with color? := ← once g.color? (colorName value) }
  | _ => .error .tooManyValues

/-- An option without a value. -/
def flag (g : Given) : OptionName → Except UsageError Given
  | .isPostfix => if g.isPostfix then .error .argumentConflict else .ok { g with isPostfix := true }
  | .subsets => if g.showsSubsets then .error .argumentConflict else .ok { g with showsSubsets := true }
  | .verbose => .ok { g with verbosity := g.verbosity + 1 }
  | .help => .error .help
  | _ => .error .invalidValue

end Given

/-- An option that waits to be looked at. -/
inductive Waiting where
  | nothing
  /-- The option needs the next word. -/
  | value (option : OptionName)
  /-- The option has its value. -/
  | whole (option : OptionName) (value : String)
  deriving DecidableEq, Repr

/-- The reading of a command's words. -/
structure Reading where
  given : Given := {}
  waiting : Waiting := .nothing
  /-- Whether `--` was read. -/
  onlyPositional : Bool := false
  deriving DecidableEq, Repr

namespace Reading

/-- Look at the option that waits. -/
def settle (r : Reading) : Except UsageError Given :=
  match r.waiting with
  | .nothing => .ok r.given
  | .value _ => .error .invalidValue
  | .whole option value => r.given.set option value

/-- An option with a value in the same word. -/
def withValue (r : Reading) (option : OptionName) (value : String) : Except UsageError Reading := do
  return { r with given := ← (← r.settle).set option value, waiting := .nothing }

/-- An option that takes the next word. -/
def awaitValue (r : Reading) (option : OptionName) : Except UsageError Reading := do
  return { r with given := ← r.settle, waiting := .value option }

/-- An option without a value. -/
def withFlag (r : Reading) (option : OptionName) : Except UsageError Reading := do
  return { r with given := ← (← r.settle).flag option, waiting := .nothing }

/-- A word that begins with two dashes, which are taken off: a name, or a name and a value. -/
def long (options : List OptionName) (r : Reading) (word : List Char) : Except UsageError Reading :=
  let name := String.ofList (word.takeWhile (· ≠ '='))
  match options.find? (·.long = name), word.dropWhile (· ≠ '=') with
  | none, _ => .error .unknownArgument
  | some option, [] => if option.takesValue then r.awaitValue option else r.withFlag option
  | some option, _ :: value =>
    if option.takesValue then r.withValue option (String.ofList value) else .error .tooManyValues

/-- A word that begins with one dash, which is taken off: short options, and a value at the end. -/
def short (options : List OptionName) (r : Reading) : List Char → Except UsageError Reading
  | [] => .ok r
  | c :: rest =>
    match options.find? (·.short? = some c) with
    | none => .error .unknownArgument
    | some option =>
      if option.takesValue then
        match rest with
        | [] => r.awaitValue option
        | '=' :: value => r.withValue option (String.ofList value)
        | value => r.withValue option (String.ofList value)
      else do (← r.withFlag option).short options rest

/-- A positional argument: the expression first, then inputs if the command takes them. -/
def positional (command : CommandName) (r : Reading) (word : String) : Except UsageError Reading :=
  if r.given.expr?.isNone then do
    return { r with given := { ← r.settle with expr? := some word }, waiting := .nothing }
  else if command = .tryInputs then do
    let given ← r.settle
    return { r with given := { given with inputs := given.inputs.push word }, waiting := .nothing }
  else .error .unknownArgument

/-- The reading after one more word. -/
def feed (command : CommandName) (r : Reading) (word : String) : Except UsageError Reading :=
  if r.onlyPositional then r.positional command word
  else
    match word.toList with
    | ['-', '-'] => .ok { r with onlyPositional := true }
    | '-' :: '-' :: name => r.long (OptionName.ofCommand command) name
    | '-' :: c :: rest => r.short (OptionName.ofCommand command) (c :: rest)
    | _ =>
      match r.waiting with
      | .value option => .ok { r with waiting := .whole option word }
      | _ => r.positional command word

end Reading

/-- How much to report for a number of times that it was asked for more. -/
def levelOf : Nat → Level
  | 0 => .warn
  | 1 => .debug
  | _ => .trace

/-- The invocation of a command whose words are all read; `verbosity` was asked for before it, and
holds unless the command has its own. -/
def invocation (command : CommandName) (verbosity : Nat) (g : Given) : Except UsageError Invocation :=
  if command ≠ .tryInputs ∧ g.expr?.isSome ∧ g.file?.isSome then .error .argumentConflict
  else
    let stage := g.stage?.getD default
    let task : Task := match command with
      | .printPostfix => .printPostfix
      | .dump => .dump stage g.showsSubsets
      | .dot => .dot stage g.output?
      | .tryInputs =>
        .tryInputs stage (if g.file?.isSome then g.expr?.toList ++ g.inputs.toList else g.inputs.toList)
    let text? := if g.file?.isSome then none else g.expr?
    .ok {
      level := levelOf (if g.verbosity = 0 then verbosity else g.verbosity)
      source := { text?, file? := g.file?, isPostfix := g.isPostfix }
      color := g.color?.getD default
      task }

/-- Read the words behind a command. -/
def readCommand (command : CommandName) (verbosity : Nat) (words : List String) :
    Except UsageError Invocation := do
  let r ← words.foldlM (Reading.feed command) ({} : Reading)
  invocation command verbosity (← r.settle)

/-! ## The words before the command -/

/-- What is wrong when help is asked for on `words`: nothing if they name one command at most. -/
def helpOn : List String → UsageError
  | [] => .help
  | [word] =>
    if (CommandName.ofName? word).isSome || word = helpName then .help else .invalidSubcommand
  | _ => .invalidSubcommand

/-- Read the words of a command line, where those before them asked for more `verbosity` times. -/
def readFrom (verbosity : Nat) : List String → Except UsageError Invocation
  | [] => .error (if verbosity = 0 then .nothingGiven else .missingSubcommand)
  | word :: rest =>
    match CommandName.ofName? word with
    | some command => readCommand command verbosity rest
    | none =>
      if word = helpName then .error (helpOn rest)
      else
        match word.toList with
        | ['-', '-'] =>
          match rest with
          | [] => .error (if verbosity = 0 then .nothingGiven else .missingSubcommand)
          | next :: _ =>
            .error (if (CommandName.ofName? next).isSome || next = helpName then .unknownArgument
              else .invalidSubcommand)
        | '-' :: '-' :: name =>
          match Reading.long OptionName.common { given := { verbosity } } name with
          | .ok r => readFrom r.given.verbosity rest
          | .error e => .error e
        | '-' :: c :: cs =>
          match Reading.short OptionName.common { given := { verbosity } } (c :: cs) with
          | .ok r => readFrom r.given.verbosity rest
          | .error e => .error e
        | _ => .error .invalidSubcommand

/-- The invocation that the words of a command line ask for. -/
def read (words : List String) : Except UsageError Invocation := readFrom 0 words

end FiniteAutomata.CommandLine
