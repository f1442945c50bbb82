import NifBindings.File.Access
import NifBindings.Source.Variants
import NifBindings.Source.BitField
import NifBindings.Source.Compound
import NifBindings.Source.NiObject

/-!
# Bindings

The bindings of a model are five sources with a common header. They are made whole before any of
them is written, and written in a fixed order into one directory.
-/

namespace NifBindings

/-- Why there are no bindings. -/
inductive BindingsError where
  /-- An expression in the model cannot be read. -/
  | input (error : InputError)
  /-- There is no model. -/
  | model (error : ModelError)
  /-- A file cannot be read or written. -/
  | file (fault : FileFault)
  /-- What should be a directory is none. -/
  | notDirectory (path : String)
deriving DecidableEq, Repr

namespace BindingsError

/-- The wording of an error. -/
def message : BindingsError → String
  | .input error => "schema parse error: " ++ error.message
  | .model error => "schema error: " ++ error.message
  | .file fault => "IO error: " ++ fault.message
  | .notDirectory path => "generation error: " ++ path ++ " is not a directory"

/-- The wordings of the errors that an error rests on, outermost first. -/
def causes : BindingsError → List String
  | .input error => error.message :: error.causes
  | .model error => error.message :: error.causes
  | .file fault => [fault.message]
  | .notDirectory _ => []

end BindingsError

/-- The texts of the five sources. -/
structure Bindings where
  bitFlags : String
  enumerations : String
  bitFields : String
  compounds : String
  objects : String
deriving DecidableEq, Repr

namespace Bindings

/-- The sources with the names of their files, in the order in which they are written. -/
def files (bindings : Bindings) : List (String × String) :=
  [("bitflags.rs", bindings.bitFlags), ("enums.rs", bindings.enumerations),
    ("bitfields.rs", bindings.bitFields), ("compounds.rs", bindings.compounds),
    ("objects.rs", bindings.objects)]

/-- What every source begins with. -/
def header (version : Option String) : List String :=
  ["//! Automatically generated by nifgen from nif.xml version " ++ version.getD "unknown" ++ ".",
    "//!",
    "//! Do not edit by hand; rerun the generator instead.",
    "",
    "#![allow(",
    "    non_camel_case_types,",
    "    non_snake_case,",
    "    non_upper_case_globals,",
    "    unused_imports,",
    "    unused_parens,",
    "    clippy::all",
    ")]",
    ""]

/-- The bindings of a model. -/
def ofModel (profile : Profile) (model : Model) : Except InputError Bindings := do
  let text := fun body => joinLines (header model.version ++ body)
  let compounds ← Compound.source profile model
  let objects ← NiObject.source profile model
  .ok {
    bitFlags := text (BitFlags.source model.bitFlags.values)
    enumerations := text (Enumeration.source model.enumerations.values)
    bitFields := text (BitField.source model)
    compounds := text compounds
    objects := text objects }

/-- The bindings of a schema text, and the model they come from. -/
def ofText (profile : Profile) (text : String) : Except BindingsError (Bindings × Model) := do
  let model ← (Model.parse profile text).mapError .model
  let bindings ← (ofModel profile model).mapError .input
  .ok (bindings, model)

/-- The bindings of a schema file, and the model they come from. -/
def ofFile {m : Type → Type} [Monad m] [FileAccess m] (profile : Profile) (path : String) :
    m (Except BindingsError (Bindings × Model)) := do
  match ← FileAccess.readText path with
  | .ok text => return ofText profile text
  | .error fault => return .error (.file fault)

/-- Writes files into a directory one after the other, up to the first fault. -/
def writeFiles {m : Type → Type} [Monad m] [FileAccess m] (directory : String) :
    List (String × String) → m (Except FileFault Unit)
  | [] => return .ok ()
  | (name, text) :: rest => do
    match ← FileAccess.writeText (pathIn directory name) text with
    | .ok () => writeFiles directory rest
    | .error fault => return .error fault

/-- Writes the sources into a directory, which is made if it is missing. -/
def writeTo {m : Type → Type} [Monad m] [FileAccess m] (bindings : Bindings)
    (directory : String) : m (Except BindingsError Unit) := do
  if (← FileAccess.isPresent directory) && !(← FileAccess.isDirectory directory) then
    return .error (.notDirectory directory)
  match ← FileAccess.makeDirectories directory with
  | .error fault => return .error (.file fault)
  | .ok () => return (← writeFiles directory bindings.files).mapError .file

end Bindings

/-- The model of a schema file. -/
def Model.ofFile {m : Type → Type} [Monad m] [FileAccess m] (profile : Profile) (path : String) :
    m (Except ModelError Model) := do
  match ← FileAccess.readText path with
  | .ok text => return Model.parse profile text
  | .error fault => return .error (.input (.file fault))

end NifBindings
