import FiniteAutomata.CommandLine.Host
/-!
# A host with one directory

A small system to run sessions on in tests and examples: its files are those of one directory, without
directories in it. A path is read component by component, and the first component that leads nowhere
says why. `.` and empty components stay where they are; above the directory, and at an absolute path,
there are no files.
-/

namespace FiniteAutomata.CommandLine

/-- Files by name. -/
structure Directory where
  files : List (String × ByteArray)

namespace Directory

/-- The content of the file of a name. -/
def get? (d : Directory) (name : String) : Option ByteArray := d.files.lookup name

/-- The directory with a file of a name, in the stead of one that has the name. -/
def put (d : Directory) (name : String) (content : ByteArray) : Directory :=
  ⟨d.files.filter (·.1 ≠ name) ++ [(name, content)]⟩

theorem lookup_cons_eq (files : List (String × ByteArray)) (name other : String) (content : ByteArray) :
    ((name, content) :: files).lookup other = if other = name then some content else files.lookup other := by
  rw [List.lookup_cons]
  split
  · rename_i h
    rw [if_pos (eq_of_beq h)]
  · rename_i h
    rw [if_neg (ne_of_beq_false h)]

theorem lookup_put (files : List (String × ByteArray)) (name other : String) (content : ByteArray) :
    (files.filter (·.1 ≠ name) ++ [(name, content)]).lookup other =
      if other = name then some content else files.lookup other := by
  induction files with
  | nil => exact lookup_cons_eq [] name other content
  | cons file rest ih =>
    obtain ⟨key, value⟩ := file
    rw [lookup_cons_eq]
    by_cases hk : key = name
    · rw [List.filter_cons_of_neg (by simpa using hk), ih, hk]
      by_cases ho : other = name
      · rw [if_pos ho, if_pos ho]
      · rw [if_neg ho, if_neg ho, if_neg ho]
    · rw [List.filter_cons_of_pos (by simpa using hk), List.cons_append, lookup_cons_eq, ih]
      by_cases ho : other = key
      · rw [if_pos ho, if_pos ho, if_neg (ho ▸ hk)]
      · rw [if_neg ho, if_neg ho]

theorem get?_put (d : Directory) (name other : String) (content : ByteArray) :
    (d.put name content).get? other = if other = name then some content else d.get? other :=
  lookup_put d.files name other content

/-! ## Names -/

/-- The most bytes of a file's name. -/
def nameLimit : Nat := 255

/-- The most bytes of a path. -/
def pathLimit : Nat := 4095

/-- Whether no file can have a name. -/
def isTooLong (name : String) : Bool := nameLimit < name.utf8ByteSize

/-- The content of the file of a name, or why there is none. -/
def lookUp (d : Directory) (name : String) : Except FileError ByteArray :=
  if isTooLong name then .error .nameTooLong
  else
    match d.get? name with
    | some content => .ok content
    | none => .error .notFound

/-- Why a name leads to no directory. -/
def obstacle (d : Directory) (name : String) : FileError :=
  match d.lookUp name with
  | .ok _ => .notDirectory
  | .error cause => cause

/-! ## Paths -/

/-- Where a path leads. -/
inductive Place where
  /-- To a directory. -/
  | directory
  /-- To a file of the directory, or to where one could be. -/
  | file (name : String)
  /-- To a directory, its name followed by slashes only; the cause says why it is not there. -/
  | slashed (cause : FileError)
  deriving DecidableEq, Repr

/-- A component of a path that stays in its directory. -/
def staysInPlace (component : List Char) : Bool := component = [] || component = ['.']

/-- A component that goes up one directory. -/
def goesUp (component : List Char) : Bool := component = ['.', '.']

/-- Where a path leads by a component that is no directory, `rest` to come. -/
def pass (cause : FileError) (rest : List (List Char)) : Except FileError Place :=
  if rest ≠ [] && rest.all (· = []) then .ok (.slashed cause) else .error cause

/-- Where the components of a path lead among directories that hold no files. -/
def followOutside : List (List Char) → Except FileError Place
  | [] => .ok .directory
  | component :: rest =>
    if staysInPlace component || goesUp component then followOutside rest
    else pass ((Directory.mk []).obstacle (String.ofList component)) rest

/-- Where the components of a path lead from the directory. -/
def follow (d : Directory) : List (List Char) → Except FileError Place
  | [] => .ok .directory
  | component :: rest =>
    if staysInPlace component then d.follow rest
    else if goesUp component then followOutside rest
    else
      let name := String.ofList component
      if rest = [] then .ok (.file name) else pass (d.obstacle name) rest

/-- Where a path leads. -/
def locate (d : Directory) (path : String) : Except FileError Place :=
  if pathLimit < path.utf8ByteSize then .error .nameTooLong
  else
    match path.toList with
    | [] => .error .notFound
    | '/' :: rest => followOutside (rest.splitOn '/')
    | chars => d.follow (chars.splitOn '/')

/-- The content of the file at a path. -/
def read (d : Directory) (path : String) : Except FileError ByteArray := do
  match ← d.locate path with
  | .directory => .error .isDirectory
  | .file name => d.lookUp name
  | .slashed cause => .error cause

/-- The directory with a text in the file at a path. A new file is made where there is none, but
not for a name with slashes behind, whatever it leads to. -/
def write (d : Directory) (path : String) (text : String) : Except FileError Directory := do
  match ← d.locate path with
  | .directory | .slashed _ => .error .isDirectory
  | .file name => if isTooLong name then .error .nameTooLong else .ok (d.put name text.toUTF8)

/-! ## The host -/

/-- The host of the directory, with a standard input. -/
def host (stdin : ByteArray) : Host (StateM Directory) where
  input := return .ok stdin
  read path := return (← get).read path
  write path text := do
    match (← get).write path text with
    | .ok after =>
      set after
      return .ok ()
    | .error cause => return .error cause

/-- The files of the directory, by their names. -/
def disk (d : Directory) : Disk String where
  content? := d.get?
  target? path :=
    match d.locate path with
    | .ok (.file name) => some name
    | _ => none

theorem target?_disk_eq_some {d : Directory} {path name : String} (h : d.locate path = .ok (.file name)) :
    d.disk.target? path = some name := by
  unfold disk
  simp only [h]

theorem write_eq_ok {d after : Directory} {path text : String} (h : d.write path text = .ok after) :
    ∃ name, d.locate path = .ok (.file name) ∧ after = d.put name text.toUTF8 := by
  unfold write at h
  cases hplace : d.locate path with
  | error cause =>
    rw [hplace] at h
    cases h
  | ok place =>
    rw [hplace] at h
    cases place with
    | directory => cases h
    | slashed cause => cases h
    | file name =>
      dsimp only [bind, Except.bind] at h
      split at h
      · cases h
      · cases h
        exact ⟨name, rfl, rfl⟩

theorem run_write (stdin : ByteArray) (d : Directory) (path text : String) :
    ((host stdin).write path text).run d =
      match d.write path text with
      | .ok after => (.ok (), after)
      | .error cause => (.error cause, d) := by
  unfold host
  simp only [StateT.run_bind, StateT.run_get, pure_bind]
  split <;> rfl

theorem lawful_host (stdin : ByteArray) : (host stdin).Lawful disk where
  disk_input _ := rfl
  disk_read _ _ := rfl
  content?_write path text d name hname := by
    rw [run_write]
    cases hwrite : d.write path text with
    | error cause => rfl
    | ok after =>
      obtain ⟨output, hplace, rfl⟩ := write_eq_ok hwrite
      have hne : name ≠ output := by
        rintro rfl
        exact hname (target?_disk_eq_some hplace)
      exact (get?_put d output name text.toUTF8).trans (if_neg hne)

end Directory

end FiniteAutomata.CommandLine
