import NifBindings.Bindings
import NifBindings.Profile.Json
import NifBindings.CommandLine.Options
import NifBindings.CommandLine.Report

/-!
# The generator

A run loads the profile, builds the model, makes the bindings and writes them. The first failure
ends it, and it tells at which of these steps the error arose.
-/

namespace NifBindings

/-- Why a run failed. -/
inductive Failure where
  /-- The file with the profile cannot be read. -/
  | readingProfile (path : String) (fault : FileFault)
  /-- The file with the profile holds none. -/
  | parsingProfile (path : String) (error : ProfileError)
  /-- A target on the command line is no version. -/
  | invalidTarget (text : String) (error : InputError)
  /-- There is no version to support. -/
  | noVersions
  /-- There is no model. -/
  | buildingModel (path : String) (error : ModelError)
  /-- There are no bindings. -/
  | makingBindings (error : BindingsError)
  /-- The bindings cannot be written. -/
  | writingBindings (directory : String) (error : BindingsError)
deriving DecidableEq, Repr

namespace Failure

/-- The wording of a failure. -/
def message : Failure → String
  | .readingProfile path _ => "reading profile " ++ path
  | .parsingProfile path _ => "parsing profile " ++ path
  | .invalidTarget text _ => "invalid --target " ++ text
  | .noVersions => "the target profile lists no versions"
  | .buildingModel path _ => "building schema model from " ++ path
  | .makingBindings error => error.message
  | .writingBindings directory _ => "writing sources to " ++ directory

/-- The wordings of the errors that a failure rests on, outermost first. -/
def causes : Failure → List String
  | .readingProfile _ fault => [fault.message]
  | .parsingProfile _ error => [error.message]
  | .invalidTarget _ error => error.message :: error.causes
  | .noVersions => []
  | .buildingModel _ error => error.message :: error.causes
  | .makingBindings error => error.causes
  | .writingBindings _ error => error.message :: error.causes

end Failure

/-- What a run has done. -/
structure Summary where
  /-- The number of findings about fields. -/
  conflicts : Nat
  /-- The compounds that have to be written by hand. -/
  manualCompounds : List String
  /-- Whether files were written. -/
  written : Bool
deriving DecidableEq, Repr

/-- The message at the end of a run. -/
def Summary.banner (summary : Summary) : String :=
  "Done! Make sure to validate basic types, " ++ ", ".intercalate summary.manualCompounds ++
    "!\n" ++ toString summary.conflicts ++ " field conflict(s) reported."

namespace Options

variable {m : Type → Type} [Monad m] [FileAccess m]

/-- The versions of the targets on the command line. -/
def targetVersions (targets : List String) : Except Failure (List Version) :=
  targets.mapM fun text => (Version.parse text).mapError (Failure.invalidTarget text)

/-- The profile with the targets of the command line, which must leave a version to support. -/
def applyTargets (options : Options) (profile : Profile) : Except Failure Profile := do
  let versions ←
    if options.targets.isEmpty then .ok profile.versions else targetVersions options.targets
  if versions.isEmpty then .error .noVersions else .ok (profile.withVersions versions)

/-- The profile in a file, or the default profile. -/
def readProfile (options : Options) : m (Except Failure Profile) := do
  match options.profile with
  | none => return .ok .default
  | some path =>
    match ← FileAccess.readText path with
    | .error fault => return .error (.readingProfile path fault)
    | .ok text => return (Profile.parse text).mapError (.parsingProfile path)

/-- The profile of a run. -/
def loadProfile (options : Options) : m (Except Failure Profile) := do
  return (← options.readProfile) >>= options.applyTargets

/-- The model and the bindings of a run, all of it made before anything is written. -/
def make (options : Options) (profile : Profile) :
    m (Except Failure (Model × Bindings)) := do
  match ← Model.ofFile profile options.xml with
  | .error error => return .error (.buildingModel options.xml error)
  | .ok model =>
    return (Bindings.ofModel profile model).mapError (.makingBindings <| .input ·) |>.map
      fun bindings => (model, bindings)

/-- Writes bindings where the options say so, and tells whether they do. -/
def write (options : Options) (bindings : Bindings) : m (Except Failure Bool) := do
  match options.outDir, options.dryRun with
  | some directory, false =>
    match ← bindings.writeTo directory with
    | .ok () => return .ok true
    | .error error => return .error (.writingBindings directory error)
  | _, _ => return .ok false

/-- Runs the generator. -/
def run (options : Options) : m (Except Failure Summary) := do
  match ← options.loadProfile with
  | .error failure => return .error failure
  | .ok profile =>
    match ← options.make profile with
    | .error failure => return .error failure
    | .ok (model, bindings) =>
      match ← options.write bindings with
      | .error failure => return .error failure
      | .ok written =>
        return .ok ⟨conflictCount model.diagnostics, profile.manualCompounds, written⟩

end Options

/-- How the generator is called. -/
def generatorUsage : String :=
  "Usage: nifgen [OPTIONS] --xml <XML> (--out-dir <OUT_DIR> | --dry-run)\n\n" ++
  "      --xml <XML>          Path to nif.xml\n" ++
  "      --out-dir <OUT_DIR>  Directory receiving the generated sources\n" ++
  "      --profile <PROFILE>  JSON target profile; omitted keys keep their defaults\n" ++
  "      --target <VERSION>   Version to support (repeatable)\n" ++
  "      --dry-run            Build and generate everything but write no files\n" ++
  "  -v, --verbose...         Show more messages\n" ++
  "  -h, --help               Print help\n" ++
  "  -V, --version            Print version\n"

/-- The wording of a refusal. -/
def Refusal.message : Refusal → String
  | .missingOption => "error: a required option is missing\n"
  | .invalidValue => "error: an option lacks its value\n"
  | .unknownArgument => "error: unexpected argument\n"
  | .repeatedOption => "error: an option cannot be used multiple times\n"
  | .tooManyValues => "error: a flag takes no value\n"
  | .helpRequested => ""
  | .versionRequested => ""

/-- The outcome of arguments that give no options. -/
def Refusal.outcome (refusal : Refusal) : Outcome :=
  match refusal with
  | .helpRequested => ⟨0, generatorUsage, ""⟩
  | .versionRequested => ⟨0, "nifgen 0.1.0\n", ""⟩
  | _ => ⟨2, "", refusal.message ++ "\n" ++ generatorUsage⟩

/-- The outcome of a run. -/
def runOutcome : Except Failure Summary → Outcome
  | .ok summary => ⟨0, summary.banner ++ "\n", ""⟩
  | .error failure => .failed failure.message failure.causes

/-- The generator as a program with arguments. -/
def generatorProgram {m : Type → Type} [Monad m] [FileAccess m] (arguments : List String) :
    m Outcome := do
  match Options.parse arguments with
  | .error refusal => return refusal.outcome
  | .ok options => return runOutcome (← options.run)

end NifBindings
