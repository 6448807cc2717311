/-!
What a file system tells about a path.
-/
namespace Canon.File

/-- What is at the end of a path, however the path is spelled. -/
structure Identity where
  device : UInt64
  inode : UInt64
  deriving DecidableEq, Hashable, Repr

def Identity.compare (left right : Identity) : Ordering :=
  (Ord.compare left.device.toNat right.device.toNat).then (Ord.compare left.inode.toNat right.inode.toNat)

structure Stat where
  isDirectory : Bool
  identity : Identity
  size : UInt64
  /-- Seconds since the epoch, which may be negative. -/
  modified : Int
  mode : UInt32
  deriving DecidableEq, Repr

inductive StatError where
  | notFound
  | permissionDenied
  | notADirectory
  | loop
  | nameTooLong
  | invalidInput
  deriving DecidableEq, Repr

namespace StatError

def name : StatError → String
  | .notFound => "NotFound"
  | .permissionDenied => "PermissionDenied"
  | .notADirectory => "NotADirectory"
  | .loop => "FilesystemLoop"
  | .nameTooLong => "InvalidFilename"
  | .invalidInput => "InvalidInput"

def all : List StatError := [.notFound, .permissionDenied, .notADirectory, .loop, .nameTooLong, .invalidInput]

def ofName? (name : String) : Option StatError := all.find? (·.name == name)

def message : StatError → String
  | .notFound => "No such file or directory (os error 2)"
  | .permissionDenied => "Permission denied (os error 13)"
  | .notADirectory => "Not a directory (os error 20)"
  | .loop => "Too many levels of symbolic links (os error 40)"
  | .nameTooLong => "File name too long (os error 36)"
  | .invalidInput => "file name contained an unexpected NUL byte"

end StatError

inductive Sought where
  | directory
  | file
  deriving DecidableEq, Repr

/-- Whether an answer is of the kind sought. Anything but a directory counts as a file. -/
def Sought.accepts : Sought → Stat → Bool
  | .directory, stat => stat.isDirectory
  | .file, stat => !stat.isDirectory

def Sought.usable? (sought : Sought) (answer : Except StatError Stat) : Option Stat :=
  match answer with
  | .ok stat => if sought.accepts stat then some stat else none
  | .error _ => none

end Canon.File
