/-!
# Faults of files

What can go wrong when a file is read or a directory is made, with the wording that the operating
system gives it.
-/

namespace NifBindings

/-- Why a file or directory could not be used. -/
inductive FileFault where
  /-- Nothing has this path. -/
  | notFound
  /-- Something already stands where a directory is to be made. -/
  | alreadyExists
  /-- A file stands where a directory is needed. -/
  | notDirectory
  /-- A directory stands where a file is needed. -/
  | isDirectory
  /-- The bytes of a file are no text. -/
  | notText
  /-- Any other fault, in the words of the operating system. -/
  | other (text : String)
deriving DecidableEq, Repr

/-- The wording of a fault. -/
def FileFault.message : FileFault → String
  | .notFound => "No such file or directory (os error 2)"
  | .alreadyExists => "File exists (os error 17)"
  | .notDirectory => "Not a directory (os error 20)"
  | .isDirectory => "Is a directory (os error 21)"
  | .notText => "stream did not contain valid UTF-8"
  | .other text => text

end NifBindings
