import Sequitur.Text.Glyph

/-!
# Sequitur.Program.Disk

Files below a directory, as a value.  The directory has a name of its own,
with which paths may start; other paths are relative to it, unless they
start with a slash.  Of what is outside of it only the null device is known.

A path is followed name by name.  Looking for a name in a file fails, and so
does looking for one that does not exist, except at the end of the path.
-/

namespace Sequitur

/-- Why a file cannot be used. -/
inductive FileFault where
  | missing
  | notDirectory
  | isDirectory
  | nameTooLong
  | invalidName
  /-- Another reason, in words. -/
  | other (reason : String)
deriving DecidableEq

/-- The words for a fault. -/
def FileFault.reason : FileFault → String
  | missing => "no such file or directory"
  | notDirectory => "not a directory"
  | isDirectory => "is a directory"
  | nameTooLong => "file name too long"
  | invalidName => "invalid argument"
  | other reason => reason

/-- An error with a file: whether it was open already, its path, and why. -/
structure FileError where
  isOpen : Bool
  path : Text
  fault : FileFault
deriving DecidableEq

/-- The message of an error. -/
def FileError.message (e : FileError) : String :=
  (if e.isOpen then "read " else "open ") ++ e.path.shown ++ ": " ++ e.fault.reason

/-- The files below a directory, each with the names on the way to it and
its content. -/
structure Disk where
  root : Text
  files : List (List Text × Text)
deriving DecidableEq

namespace Disk

/-- A place on the way along a path. -/
inductive Place where
  /-- Below the directory. -/
  | inside (names : List Text)
  /-- Outside of it. -/
  | outside

/-- What a path leads to. -/
inductive Target where
  | file (names : List Text) (content : Text)
  | directory
  /-- The place for a file that does not exist. -/
  | vacant (names : List Text)
  /-- The place for a directory that does not exist. -/
  | vacantDirectory
  /-- The null device, which is empty and stays so. -/
  | null

/-- The content of a file. -/
def file? (d : Disk) (names : List Text) : Option Text := d.files.lookup names

/-- Whether there is a directory. -/
def isDirectory (d : Disk) (names : List Text) : Bool :=
  names.isEmpty || d.files.any fun f => names.isPrefixOf f.1 && names.length < f.1.length

/-- Whether there is a file or a directory. -/
def hasName (d : Disk) (names : List Text) : Bool := (d.file? names).isSome || d.isDirectory names

/-- The longest name of a file, in bytes. -/
def longestName : Nat := 255

/-- The longest path, in bytes. -/
def longestPath : Nat := 4095

/-- Follows names from a place that exists. -/
def follow (d : Disk) : Place → List Text → Except FileFault Target
  | .outside, [] => .ok .directory
  | .outside, n :: rest =>
    if n.isEmpty || n = Text.ofString "." || n = Text.ofString ".." then d.follow .outside rest
    else if longestName < n.size then .error .nameTooLong
    else .error .missing
  | .inside names, [] =>
    match d.file? names with
    | some content => .ok (.file names content)
    | none => .ok .directory
  | .inside names, n :: rest =>
    if (d.file? names).isSome then .error .notDirectory
    else if n.isEmpty || n = Text.ofString "." then d.follow (.inside names) rest
    else if n = Text.ofString ".." then
      d.follow (if names.isEmpty then .outside else .inside names.dropLast) rest
    else if longestName < n.size then .error .nameTooLong
    else if d.hasName (names ++ [n]) then d.follow (.inside (names ++ [n])) rest
    else if rest.isEmpty then .ok (.vacant (names ++ [n]))
    else if rest.all List.isEmpty then .ok .vacantDirectory
    else .error .missing

/-- What a path leads to. -/
def resolve (d : Disk) (path : Text) : Except FileFault Target :=
  if path.isEmpty then .error .missing
  else if path.contains (.char '\x00') then .error .invalidName
  else if longestPath < path.size then .error .nameTooLong
  else if path = Text.ofString "/dev/null" then .ok .null
  else
    let below := d.root ++ [.char '/']
    if below.isPrefixOf path then
      d.follow (.inside []) (Text.splitOn '/' (path.drop below.length))
    else if path.head? = some (.char '/') then d.follow .outside (Text.splitOn '/' path)
    else d.follow (.inside []) (Text.splitOn '/' path)

/-- Reads a file. -/
def read (d : Disk) (path : Text) : Except FileError Text :=
  match d.resolve path with
  | .error fault => .error ⟨false, path, fault⟩
  | .ok (.file _ content) => .ok content
  | .ok .null => .ok []
  | .ok .directory => .error ⟨true, path, .isDirectory⟩
  | .ok _ => .error ⟨false, path, .missing⟩

/-- Appends to a file, which is created if it does not exist. -/
def append (d : Disk) (path : Text) (more : Text) : Except FileError Disk :=
  match d.resolve path with
  | .error fault => .error ⟨false, path, fault⟩
  | .ok (.file names content) =>
    .ok { d with files := d.files.map fun f => if f.1 = names then (names, content ++ more) else f }
  | .ok (.vacant names) => .ok { d with files := d.files ++ [(names, more)] }
  | .ok .null => .ok d
  | .ok _ => .error ⟨false, path, .isDirectory⟩

/-- The path of names. -/
def pathOf : List Text → Text
  | [] => []
  | [n] => n
  | n :: rest => n ++ .char '/' :: pathOf rest

/-- The files that are new or changed since an earlier state, with their
paths. -/
def changes (before after : Disk) : List (Text × Text) :=
  (after.files.filter fun f => before.file? f.1 ≠ some f.2).map fun f => (pathOf f.1, f.2)

end Disk

end Sequitur
