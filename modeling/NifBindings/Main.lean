import NifBindings.CommandLine.Run

/-!
# Command line

The generator on the real file system. Only here are files touched and messages printed.
-/

namespace NifBindings

/-- The fault that an error of the operating system stands for. -/
def FileFault.ofSystem (error : IO.Error) : FileFault :=
  match error with
  | .noFileOrDirectory .. => .notFound
  | .alreadyExists .. => .alreadyExists
  | .inappropriateType _ code _ => if code = 21 then .isDirectory else .notDirectory
  | _ => .other (toString error)

/-- The result of an action, with the fault in place of an error. -/
def withFault {α : Type} (action : IO α) : IO (Except FileFault α) := do
  match ← action.toBaseIO with
  | .ok value => return .ok value
  | .error error => return .error (FileFault.ofSystem error)

instance : FileAccess IO where
  isPresent path := do
    match ← withFault (IO.FS.realPath path) with
    | .ok _ => return true
    | .error _ => return false
  isDirectory path := do
    match ← withFault (IO.FS.realPath path) with
    | .ok location => location.isDir
    | .error _ => return false
  readText path := do
    match ← withFault (IO.FS.readBinFile path) with
    | .ok content =>
      match String.fromUTF8? content with
      | some text => return .ok text
      | none => return .error .notText
    | .error fault => return .error fault
  makeDirectories path := withFault (IO.FS.createDirAll path)
  writeText path text := withFault (IO.FS.writeFile path text)

end NifBindings

/-- Runs the generator and prints its outcome. -/
def main (arguments : List String) : IO UInt32 := do
  let outcome ← (NifBindings.generatorProgram arguments : IO NifBindings.Outcome)
  IO.print outcome.output
  IO.eprint outcome.errors
  return outcome.code.toUInt32
