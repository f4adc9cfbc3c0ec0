/-!
# Hosts

What a session asks of the system that it runs on: to read the standard input or a file, and to write a
file. What the system does then is not known here. A session is given a `Host` that does it, and what is
relied on of the files of a system with states is said in `Host.Lawful`.
-/

namespace FiniteAutomata.CommandLine

/-- Why a file cannot be read or written. -/
inductive FileError where
  | notFound
  | isDirectory
  /-- A file stands in the middle of a path. -/
  | notDirectory
  /-- A name, or a whole path, has more bytes than any file's. -/
  | nameTooLong
  /-- The content is no text. -/
  | invalidText
  /-- A cause that is known by its message only. -/
  | other (message : String)
  deriving DecidableEq, Repr

/-- The cause in the words of the system. -/
def FileError.message : FileError → String
  | notFound => "No such file or directory (os error 2)"
  | isDirectory => "Is a directory (os error 21)"
  | notDirectory => "Not a directory (os error 20)"
  | nameTooLong => "File name too long (os error 36)"
  | invalidText => "stream did not contain valid UTF-8"
  | other message => message

/-- The path that stands for the standard input. -/
def standardInput : String := "-"

/-- The system that a session runs on, with its effects in `m`. -/
structure Host (m : Type → Type) where
  /-- Read all of the standard input. -/
  input : m (Except FileError ByteArray)
  /-- Read the file at a path. -/
  read (path : String) : m (Except FileError ByteArray)
  /-- Write a text to the file at a path, in the stead of what it holds. A file that is not there is
  made. -/
  write (path text : String) : m (Except FileError Unit)

/-- The files of a system as they are at one time. -/
structure Disk (File : Type) where
  /-- The content of a file, if it is there. -/
  content? : File → Option ByteArray
  /-- The file that a path leads to, be it there or still to be made. -/
  target? : String → Option File

namespace Host

/-- Read the file at a path, or the standard input. -/
def contentAt {m : Type → Type} (host : Host m) (path : String) : m (Except FileError ByteArray) :=
  if path = standardInput then host.input else host.read path

variable {σ File : Type}

/-- What is read at a path when the system is in a state. -/
def contents (host : Host (StateM σ)) (s : σ) (path : String) : Except FileError ByteArray :=
  ((host.contentAt path).run s).1

/-- What is relied on of a system whose files in a state are `disk`. How it takes paths to files, which
files can be read and written, and what else happens in it are left open. -/
structure Lawful (host : Host (StateM σ)) (disk : σ → Disk File) : Prop where
  /-- To read the standard input changes no file. -/
  disk_input (s : σ) : disk (host.input.run s).2 = disk s
  /-- To read a file changes none. -/
  disk_read (path : String) (s : σ) : disk ((host.read path).run s).2 = disk s
  /-- To write to a path changes at most the file that the path leads to. Nothing is said of this file:
  a write that fails may leave a part of the text in it. -/
  content?_write (path text : String) (s : σ) (file : File) (hfile : (disk s).target? path ≠ some file) :
    (disk ((host.write path text).run s).2).content? file = (disk s).content? file

theorem Lawful.disk_contentAt {host : Host (StateM σ)} {disk : σ → Disk File} (h : host.Lawful disk)
    (path : String) (s : σ) : disk ((host.contentAt path).run s).2 = disk s := by
  unfold contentAt
  split
  · exact h.disk_input s
  · exact h.disk_read path s

end Host

end FiniteAutomata.CommandLine
