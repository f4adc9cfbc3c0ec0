/-!
# Text without control sequences

A terminal takes an escape character and what follows it as a command, and other control characters
as commands of their own. In a text for readers off the terminal they are left out: `strip` keeps
what a terminal would show, and the white space between.

A sequence is one of four kinds. An escape sequence ends with its first character that is no
intermediate one; a control sequence (`ESC [`) with a character from `@` to `~`; a system command
(`ESC ]`) with the bell; a device command (`ESC P`) and the strings of `ESC X`, `ESC ^` and `ESC _`
with the string terminator. An escape character begins a new sequence in any of them.
-/

namespace FiniteAutomata.ControlSequence

/-- What is being read. -/
inductive State where
  /-- No sequence. -/
  | text
  /-- Behind an escape character. -/
  | escape
  /-- Behind the intermediate characters of an escape sequence. -/
  | escapeIntermediate
  /-- Inside a control sequence. -/
  | control
  /-- At the beginning of a device command. -/
  | deviceEntry
  /-- Inside the parameters of a device command. -/
  | deviceParameters
  /-- Behind the intermediate characters of a device command. -/
  | deviceIntermediate
  /-- Inside a string that the string terminator ends. -/
  | string
  /-- Inside a system command. -/
  | system
  deriving DecidableEq, Repr

/-- The blank and the characters up to the slash, which may stand inside a sequence. -/
def isIntermediate (c : Char) : Bool := 0x20 ≤ c.toNat && c.toNat ≤ 0x2f

/-- Digits, the colon and the semicolon, which make up parameters. -/
def isParameter (c : Char) : Bool := 0x30 ≤ c.toNat && c.toNat ≤ 0x3b

/-- Characters that mark parameters as private. -/
def isPrivate (c : Char) : Bool := 0x3c ≤ c.toNat && c.toNat ≤ 0x3f

/-- Characters that end a control sequence. -/
def isFinal (c : Char) : Bool := 0x40 ≤ c.toNat && c.toNat ≤ 0x7e

/-- Whether the string terminator is among the bytes of a character. -/
def holdsTerminator (c : Char) : Bool := (String.utf8EncodeChar c).contains 0x9c

/-- The characters of white space among the control characters. -/
def isBlankControl (c : Char) : Bool := c = '\t' || c = '\n' || c = '\x0c' || c = '\r'

namespace State

/-- What is read behind a character that is not kept. -/
def next (s : State) (c : Char) : State :=
  if c = '\x1b' then escape
  else if c = '\x18' || c = '\x1a' then text
  else
    match s with
    | text => text
    | escape =>
      if isIntermediate c then escapeIntermediate
      else if c = '[' then control
      else if c = ']' then system
      else if c = 'P' then deviceEntry
      else if c = 'X' || c = '^' || c = '_' then string
      else if isParameter c || isPrivate c || isFinal c then text
      else escape
    | escapeIntermediate =>
      if isParameter c || isPrivate c || isFinal c then text else escapeIntermediate
    | control => if isFinal c then text else control
    | deviceEntry =>
      if isIntermediate c then deviceIntermediate
      else if isParameter c || isPrivate c then deviceParameters
      else if isFinal c then string
      else deviceEntry
    | deviceParameters =>
      if isIntermediate c then deviceIntermediate
      else if isPrivate c || isFinal c then string
      else deviceParameters
    | deviceIntermediate =>
      if isParameter c || isPrivate c || isFinal c then string else deviceIntermediate
    | string => if holdsTerminator c then text else string
    | system => if c = '\x07' then text else system

/-- Whether a character is kept: of a text all but controls that are no white space, and this white
space also inside escape and control sequences. -/
def keeps (s : State) (c : Char) : Bool :=
  match s with
  | text => isBlankControl c || (0x20 ≤ c.toNat && c.toNat ≠ 0x7f)
  | escape | escapeIntermediate | control => isBlankControl c
  | deviceEntry | deviceParameters | deviceIntermediate | string | system => false

end State

/-- What is kept of a text. White space inside a sequence brings the text back (`isOpen`) up to the
next control character, and the sequence goes on from there unless a character beyond ASCII has come
between. -/
def stripFrom (isOpen : Bool) (s : State) : List Char → List Char
  | [] => []
  | c :: rest =>
    if (if isOpen then .text else s).keeps c then
      c :: stripFrom true (if c.toNat < 0x80 then s else .text) rest
    else stripFrom false (s.next c) rest

/-- The text without control sequences and without control characters that are no white space. -/
def strip (text : String) : String := String.ofList (stripFrom false .text text.toList)

end FiniteAutomata.ControlSequence
