import Chip8.Text
/-!
# File errors

Why a name does not lead to the bytes of a file. Every cause has the
number, the kind and the sentence that the operating system's interface
gives it.
-/

namespace Chip8

/-- Why a file could not be read. -/
inductive FileError
  /-- Nothing goes by the name. -/
  | notFound
  /-- The file may not be read. -/
  | permissionDenied
  /-- The name leads through something that is no directory. -/
  | notDirectory
  /-- The name is a directory's. -/
  | isDirectory
  /-- The name, or a part of it, is longer than names may be. -/
  | nameTooLong
  /-- The name leads through too many links. -/
  | linkLoop
  /-- Anything else, by its number and sentence. -/
  | other (code : Nat) (message : String)
deriving DecidableEq, Repr

namespace FileError

/-- The number of an error. -/
def code : FileError → Nat
  | notFound => 2
  | permissionDenied => 13
  | notDirectory => 20
  | isDirectory => 21
  | nameTooLong => 36
  | linkLoop => 40
  | other code _ => code

/-- The name of an error's kind. -/
def kind : FileError → String
  | notFound => "NotFound"
  | permissionDenied => "PermissionDenied"
  | notDirectory => "NotADirectory"
  | isDirectory => "IsADirectory"
  | nameTooLong => "InvalidFilename"
  | linkLoop => "FilesystemLoop"
  | other _ _ => "Uncategorized"

/-- What an error means. -/
def message : FileError → String
  | notFound => "No such file or directory"
  | permissionDenied => "Permission denied"
  | notDirectory => "Not a directory"
  | isDirectory => "Is a directory"
  | nameTooLong => "File name too long"
  | linkLoop => "Too many levels of symbolic links"
  | other _ message => message

/-- The error of a number; the sentence is for a number that has no name
here. -/
def ofCode (code : Nat) (sentence : String) : FileError :=
  match code with
  | 2 => notFound
  | 13 => permissionDenied
  | 20 => notDirectory
  | 21 => isDirectory
  | 36 => nameTooLong
  | 40 => linkLoop
  | code => other code sentence

/-- The error as a record. -/
def record (e : FileError) : String :=
  Record.text "Os"
    [("code", toString e.code), ("kind", e.kind), ("message", "\"" ++ e.message ++ "\"")]

end FileError

end Chip8
