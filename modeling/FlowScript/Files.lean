/-
# Files of a directory

A directory holds files and no other directories.  `read` and `write` say what using a path in it
comes to: a path is followed step by step, and the first step that cannot be taken decides the
error.  A step upwards leaves the directory; what is stored out there is remembered under its path.
-/

namespace FlowScript

/-- Why a file cannot be read or written. -/
inductive FileError
  | notFound
  | permissionDenied
  /-- A file stands where the path goes on. -/
  | notDirectory
  /-- A directory stands where a file is asked for. -/
  | isDirectory
  /-- The path or a name in it is longer than the system allows. -/
  | nameTooLong
  /-- The path holds the character zero. -/
  | zeroInName
deriving DecidableEq

def FileError.message : FileError → String
  | notFound => "No such file or directory (os error 2)"
  | permissionDenied => "Permission denied (os error 13)"
  | notDirectory => "Not a directory (os error 20)"
  | isDirectory => "Is a directory (os error 21)"
  | nameTooLong => "File name too long (os error 36)"
  | zeroInName => "file name contained an unexpected NUL byte"

/-- Files by name. -/
abbrev Directory := List (String × String)

namespace Directory

/-- How many bytes a path has to stay below. -/
def pathLimit : Nat := 4096

/-- How many bytes a name may have. -/
def nameLimit : Nat := 255

/-- What a path leads to. -/
inductive Target
  | directory
  /-- A name in a directory, whether or not there is a file of that name. -/
  | name (base name : String)

/-- The directory above one, both given by the path that leads there. -/
def above (base : String) : String := if base = "/" then base else "../" ++ base

/-- Follows the steps of a path from a directory. -/
def follow (d : Directory) : (base : String) → List String → Except FileError Target
  | _, [] => .ok .directory
  | base, step :: rest =>
    if step = "." then follow d base rest
    else if step = ".." then follow d (above base) rest
    else if rest = [] then .ok (.name base step)
    else if nameLimit < step.utf8ByteSize then .error .nameTooLong
    else if (d.lookup (base ++ step)).isSome then .error .notDirectory
    else .error .notFound

/-- What a path leads to. -/
def resolve (d : Directory) (path : String) : Except FileError Target :=
  if path.toList.contains '\x00' then .error .zeroInName
  else if pathLimit ≤ path.utf8ByteSize then .error .nameTooLong
  else
    follow d (if path.toList.head? = some '/' then "/" else "")
      ((path.splitOn "/").filter (· ≠ ""))

/-- Whether a path ends in a slash, and so can only lead to a directory. -/
def endsInSlash (path : String) : Bool := path.toList.getLast? = some '/'

/-- The text of a file. -/
def read (d : Directory) (path : String) : Except FileError String := do
  match ← d.resolve path with
  | .directory => .error .isDirectory
  | .name base name =>
    if nameLimit < name.utf8ByteSize then .error .nameTooLong
    else
      match d.lookup (base ++ name) with
      | none => .error .notFound
      | some text => if endsInSlash path then .error .notDirectory else .ok text

/-- The directory after a text is stored. -/
def write (d : Directory) (path text : String) : Except FileError Directory := do
  match ← d.resolve path with
  | .directory => .error .isDirectory
  | .name base name =>
    if endsInSlash path then .error .isDirectory
    else if nameLimit < name.utf8ByteSize then .error .nameTooLong
    else .ok ((base ++ name, text) :: d.filter (·.1 ≠ base ++ name))

end Directory

end FlowScript
