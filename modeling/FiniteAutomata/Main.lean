import FiniteAutomata.CommandLine.Session
import FiniteAutomata.CommandLine.Usage
/-!
# The program

Reads the arguments, runs the session on the system, and prints what it leaves behind. The records that
are shown are those of the level that the arguments ask for; filters for them in the environment are left
out.
-/

namespace FiniteAutomata.CommandLine

/-- What the system says of a file that cannot be read or written. -/
def FileError.ofSystem : IO.Error → FileError
  | .noFileOrDirectory .. => .notFound
  | .inappropriateType _ code details =>
    if code = 20 then .notDirectory else if code = 21 then .isDirectory else .other details
  | .invalidArgument _ code details => if code = 36 then .nameTooLong else .other details
  | .permissionDenied _ code _ => .other ("Permission denied (os error " ++ code.toNat.repr ++ ")")
  | cause => .other cause.toString

/-- What an access to a file gives, or what the system says of it. -/
def FileError.catching {α : Type} (access : IO α) : IO (Except FileError α) := do
  try
    return .ok (← access)
  catch cause =>
    return .error (.ofSystem cause)

/-- The system that the program runs on. -/
def systemHost : Host IO where
  input := FileError.catching (IO.FS.readBinFile "/dev/stdin")
  read path := FileError.catching (IO.FS.readBinFile path)
  write path text := FileError.catching (IO.FS.writeFile path text)

/-- Whether what is printed is seen on a terminal: both the output and the reports have to be. -/
def isOnTerminal : IO Bool := do
  return (← (← IO.getStdout).isTty) && (← (← IO.getStderr).isTty)

end FiniteAutomata.CommandLine

open FiniteAutomata.CommandLine

/-- Compile an expression and do what the arguments ask for. -/
def main (args : List String) : IO UInt32 := do
  match read args with
  | .ok inv =>
    let outcome ← inv.session systemHost (← isOnTerminal)
    IO.print outcome.stdout
    IO.eprint outcome.stderr
    return UInt32.ofNat outcome.exit.code
  | .error .help =>
    IO.print usage
    return UInt32.ofNat (UsageError.code .help)
  | .error cause =>
    IO.eprint (errorLine cause.message ++ "\n" ++ usage)
    return UInt32.ofNat cause.code
