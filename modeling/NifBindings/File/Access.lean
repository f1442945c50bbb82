import NifBindings.File.Fault

/-!
# Access to files

What a program needs of a file system, so that it can be run on the real one and on a tree of files
alike.
-/

namespace NifBindings

/-- The steps on files that a program takes. Paths are texts with slashes between their segments. -/
class FileAccess (m : Type → Type) where
  /-- Whether a path leads to something. -/
  isPresent (path : String) : m Bool
  /-- Whether a path leads to a directory. -/
  isDirectory (path : String) : m Bool
  /-- The text of a file. -/
  readText (path : String) : m (Except FileFault String)
  /-- Makes a directory and those above it. -/
  makeDirectories (path : String) : m (Except FileFault Unit)
  /-- Gives a file a new text, and makes it if it is missing. -/
  writeText (path text : String) : m (Except FileFault Unit)

/-- The path of a file in a directory. -/
def pathIn (directory name : String) : String :=
  if directory.isEmpty || directory.toList.getLast? == some '/' then directory ++ name
  else directory ++ "/" ++ name

end NifBindings
