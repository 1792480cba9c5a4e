/-!
# `Bindery.Files.Fault` — why a file operation fails

The faults that operations on the file tree can end in. Most are numbered by the operating system, and
the number is part of the wording.

**Contents.** `Files.Fault` and `Files.Fault.message`.
-/

namespace Bindery.Files

/-- Why a file operation fails. -/
inductive Fault where
  | notFound
  | permissionDenied
  | alreadyExists
  | notDirectory
  | isDirectory
  | notEmpty
  | nameTooLong
  | tooManyLinks
  | notExecutable
  /-- a text was asked for, and the bytes are not one -/
  | notText
  /-- a path holds a character that ends it early -/
  | nulInPath
  /-- a copy was asked for of something that is not a file -/
  | notRegularFile
deriving DecidableEq, Repr

/-- The wording of a fault. -/
def Fault.message : Fault → String
  | notFound => "No such file or directory (os error 2)"
  | permissionDenied => "Permission denied (os error 13)"
  | alreadyExists => "File exists (os error 17)"
  | notDirectory => "Not a directory (os error 20)"
  | isDirectory => "Is a directory (os error 21)"
  | notEmpty => "Directory not empty (os error 39)"
  | nameTooLong => "File name too long (os error 36)"
  | tooManyLinks => "Too many levels of symbolic links (os error 40)"
  | notExecutable => "Exec format error (os error 8)"
  | notText => "stream did not contain valid UTF-8"
  | nulInPath => "file name contained an unexpected NUL byte"
  | notRegularFile => "the source path is neither a regular file nor a symlink to a regular file"

end Bindery.Files
