import Chip8.FileSystem.Error
/-!
# File systems

Directories and files by their paths, and how a name leads to one of them.
A name is split at its slashes and followed part by part, from the root if
it begins with a slash and from the working directory otherwise. Each part
is looked up in a directory, so the first part that fails decides which
error is given: the thing reached so far is no directory, the part is too
long, or nothing goes by it (`step`). A slash at the end asks for a
directory.
-/

namespace Chip8

/-- The names from the root to a file or directory. -/
abbrev Path := List String

/-- A file system, given by what lies at each path. -/
structure FileSystem where
  /-- The paths of the directories; the root is always one. -/
  directories : List Path
  /-- The files and their bytes. -/
  files : List (Path × List UInt8)
  /-- Where names begin that do not begin with a slash. -/
  workingDirectory : Path
deriving DecidableEq, Repr

namespace FileSystem

/-- The most bytes that a name may have. -/
def nameLimit : Nat := 4095

/-- The most bytes that a part of a name may have. -/
def partLimit : Nat := 255

/-- Whether a directory lies at a path. -/
def isDirectory (s : FileSystem) (path : Path) : Bool :=
  path.isEmpty || s.directories.contains path

/-- The bytes of the file at a path. -/
def fileAt? (s : FileSystem) (path : Path) : Option (List UInt8) :=
  s.files.lookup path

/-- Whether anything lies at a path. -/
def isTaken (s : FileSystem) (path : Path) : Bool :=
  s.isDirectory path || (s.fileAt? path).isSome

/-- The file system with a file at a path. -/
def addFile (s : FileSystem) (path : Path) (bytes : List UInt8) : FileSystem :=
  { s with files := (path, bytes) :: s.files }

/-! ## From names to paths -/

/-- The parts of a name between slashes, the part before the first slash
given in reverse so far. Empty parts in the middle do not count, and an
empty part at the end stands for the directory itself. -/
def partsFrom (current : List Char) : List Char → List String
  | [] => [if current.isEmpty then "." else String.ofList current.reverse]
  | '/' :: cs =>
    if current.isEmpty then partsFrom [] cs
    else String.ofList current.reverse :: partsFrom [] cs
  | c :: cs => partsFrom (c :: current) cs

/-- The parts of a name. -/
def parts (name : String) : List String :=
  partsFrom [] name.toList

/-- The path that one more part leads to. -/
def step (s : FileSystem) (here : Path) (part : String) : Except FileError Path :=
  if !s.isDirectory here then .error .notDirectory
  else if part = "." then .ok here
  else if part = ".." then .ok here.dropLast
  else if partLimit < part.utf8ByteSize then .error .nameTooLong
  else if s.isTaken (here ++ [part]) then .ok (here ++ [part])
  else .error .notFound

/-- The path that parts lead to, one after the other. -/
def follow (s : FileSystem) (here : Path) : List String → Except FileError Path
  | [] => .ok here
  | part :: rest =>
    match s.step here part with
    | .ok there => s.follow there rest
    | .error e => .error e

/-- Where a name begins. -/
def startOf (s : FileSystem) (name : String) : Path :=
  if name.toList.head? = some '/' then [] else s.workingDirectory

/-- The path that a name leads to. The empty name leads nowhere. -/
def resolve (s : FileSystem) (name : String) : Except FileError Path :=
  if name = "" then .error .notFound
  else if nameLimit < name.utf8ByteSize then .error .nameTooLong
  else s.follow (s.startOf name) (parts name)

/-- The bytes of the file that a name leads to. -/
def read (s : FileSystem) (name : String) : Except FileError (List UInt8) :=
  match s.resolve name with
  | .error e => .error e
  | .ok path =>
    match s.fileAt? path with
    | some bytes => .ok bytes
    | none => .error .isDirectory

/-! ## The standard hierarchy

The directories that the filesystem hierarchy standard puts below the root,
`usr` and `var`, with the two that hold the kernel's own view, and the null
device, which reads as an empty file. -/

/-- The directories below the root. -/
def rootNames : List String :=
  ["bin", "boot", "dev", "etc", "home", "lib", "media", "mnt", "opt", "proc", "root", "run",
   "sbin", "srv", "sys", "tmp", "usr", "var"]

/-- The directories below `usr`. -/
def usrNames : List String :=
  ["bin", "include", "lib", "local", "sbin", "share", "src"]

/-- The directories below `var`. -/
def varNames : List String :=
  ["cache", "lib", "local", "lock", "log", "mail", "opt", "run", "spool", "tmp"]

/-- The null device. -/
def nullDevice : Path := ["dev", "null"]

/-- The standard hierarchy, with a working directory of its own. -/
def standard (workingDirectory : Path) : FileSystem where
  directories :=
    workingDirectory :: rootNames.map (fun name => [name]) ++
      usrNames.map (fun name => ["usr", name]) ++ varNames.map fun name => ["var", name]
  files := [(nullDevice, [])]
  workingDirectory := workingDirectory

end FileSystem

end Chip8
