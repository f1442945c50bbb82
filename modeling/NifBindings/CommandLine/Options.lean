/-!
# Command line options

Arguments are read from left to right. An option that takes a value waits for it until the next
argument is read, and what is wrong with it comes to light then; an unknown argument is refused
without looking at a waiting option.
-/

namespace NifBindings

/-- What the command line asks for. -/
structure Options where
  /-- The schema file. -/
  xml : String
  /-- The directory for the sources. -/
  outDir : Option String
  /-- The file with the profile. -/
  profile : Option String
  /-- The versions that replace those of the profile. -/
  targets : List String
  /-- Whether no file is written. -/
  dryRun : Bool
  /-- How often more messages were asked for. -/
  verbose : Nat
deriving DecidableEq, Repr

/-- The least severe messages that are shown. -/
def Options.logLevel (options : Options) : String :=
  match options.verbose with
  | 0 => "warn"
  | 1 => "info"
  | 2 => "debug"
  | _ => "trace"

/-- Why arguments give no options. -/
inductive Refusal where
  /-- A required option is missing. -/
  | missingOption
  /-- An option lacks its value, or the value is empty. -/
  | invalidValue
  /-- An argument is not known. -/
  | unknownArgument
  /-- An option is given twice. -/
  | repeatedOption
  /-- A flag is given a value. -/
  | tooManyValues
  /-- Help was asked for. -/
  | helpRequested
  /-- The version was asked for. -/
  | versionRequested
deriving DecidableEq, Repr

/-- An option that takes a value. -/
inductive ValueOption where
  | xml
  | outDir
  | profile
  | target
deriving DecidableEq, Repr

/-- An option without a value. -/
inductive Flag where
  | dryRun
  | verbose
  | help
  | version
deriving DecidableEq, Repr

/-- The option with this long name. -/
def ValueOption.ofName? (name : String) : Option ValueOption :=
  match name with
  | "xml" => some .xml
  | "out-dir" => some .outDir
  | "profile" => some .profile
  | "target" => some .target
  | _ => none

/-- The flag with this long name. -/
def Flag.ofName? (name : String) : Option Flag :=
  match name with
  | "dry-run" => some .dryRun
  | "verbose" => some .verbose
  | "help" => some .help
  | "version" => some .version
  | _ => none

/-- The flag of this letter. -/
def Flag.ofLetter? (letter : Char) : Option Flag :=
  match letter with
  | 'v' => some .verbose
  | 'h' => some .help
  | 'V' => some .version
  | _ => none

/-- The options read so far. -/
structure PartialOptions where
  xml : Option String := none
  outDir : Option String := none
  profile : Option String := none
  targets : List String := []
  dryRun : Bool := false
  verbose : Nat := 0
  /-- The option that was read last, with its value if that was read too. -/
  waiting : Option (ValueOption × Option String) := none
  /-- Whether two dashes ended the options. -/
  ended : Bool := false

namespace PartialOptions

/-- A path that may be given once and is not empty. -/
def givePath (old : Option String) (value : String) : Except Refusal (Option String) :=
  if old.isSome then .error .repeatedOption
  else if value.isEmpty then .error .invalidValue
  else .ok (some value)

/-- Gives an option its value. -/
def give (options : PartialOptions) (option : ValueOption) (value : String) :
    Except Refusal PartialOptions :=
  match option with
  | .xml => (givePath options.xml value).map fun path => { options with xml := path }
  | .outDir => (givePath options.outDir value).map fun path => { options with outDir := path }
  | .profile => (givePath options.profile value).map fun path => { options with profile := path }
  | .target => .ok { options with targets := options.targets ++ [value] }

/-- Gives the waiting option its value, which it must have by now. -/
def settle (options : PartialOptions) : Except Refusal PartialOptions :=
  match options.waiting with
  | none => .ok options
  | some (_, none) => .error .invalidValue
  | some (option, some value) => { options with waiting := none }.give option value

/-- The count after one more, which has eight bits. -/
def countUp (count : Nat) : Nat :=
  min (count + 1) 255

/-- Raises a flag. -/
def raise (options : PartialOptions) (flag : Flag) : Except Refusal PartialOptions := do
  let settled ← options.settle
  match flag with
  | .dryRun =>
    if settled.dryRun then .error .repeatedOption else .ok { settled with dryRun := true }
  | .verbose => .ok { settled with verbose := countUp settled.verbose }
  | .help => .error .helpRequested
  | .version => .error .versionRequested

/-- Raises the flags of some letters. -/
def raiseLetters (options : PartialOptions) : List Char → Except Refusal PartialOptions
  | [] => .ok options
  | letter :: rest =>
    match Flag.ofLetter? letter with
    | none => .error .unknownArgument
    | some flag => do
      let raised ← options.raise flag
      raised.raiseLetters rest

/-- Reads an argument with two dashes in front, given without them. -/
def readLong (options : PartialOptions) (text : List Char) : Except Refusal PartialOptions :=
  let name := String.ofList (text.takeWhile (· != '='))
  let value? :=
    match text.dropWhile (· != '=') with
    | [] => none
    | _ :: value => some (String.ofList value)
  match ValueOption.ofName? name, Flag.ofName? name with
  | some option, _ => do
    let settled ← options.settle
    match value? with
    | some value => settled.give option value
    | none => .ok { settled with waiting := some (option, none) }
  | none, some flag => if value?.isSome then .error .tooManyValues else options.raise flag
  | none, none => .error .unknownArgument

/-- Reads an argument that is no option. -/
def readValue (options : PartialOptions) (value : String) : Except Refusal PartialOptions :=
  match options.waiting with
  | some (option, none) => .ok { options with waiting := some (option, some value) }
  | _ => .error .unknownArgument

/-- Reads an argument. -/
def read (options : PartialOptions) (argument : String) : Except Refusal PartialOptions :=
  if options.ended then .error .unknownArgument
  else
    match argument.toList with
    | ['-', '-'] => .ok { options with ended := true }
    | '-' :: '-' :: text => options.readLong text
    | '-' :: letter :: letters => options.raiseLetters (letter :: letters)
    | _ => options.readValue argument

/-- The options, if all that are required are there. -/
def complete (options : PartialOptions) : Except Refusal Options :=
  match options.xml with
  | none => .error .missingOption
  | some xml =>
    if options.outDir.isNone && !options.dryRun then .error .missingOption
    else
      .ok ⟨xml, options.outDir, options.profile, options.targets, options.dryRun,
        options.verbose⟩

end PartialOptions

/-- Reads the arguments of a command line. -/
def Options.parse (arguments : List String) : Except Refusal Options := do
  let options ← arguments.foldlM PartialOptions.read {}
  let settled ← options.settle
  settled.complete

end NifBindings
