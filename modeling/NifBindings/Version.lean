import NifBindings.InputError

/-!
# Format versions

A version has four components of 32 bits. It is written with points or with underscores; capital
letters V in front are skipped, missing components are zero, and components behind the fourth only
have to be numbers.
-/

namespace NifBindings

/-- A version of the file format. -/
structure Version where
  major : UInt32
  minor : UInt32
  micro : UInt32
  patch : UInt32
deriving DecidableEq, Repr, Inhabited

namespace Version

/-- The components, most significant first. -/
def components (version : Version) : List Nat :=
  [version.major.toNat, version.minor.toNat, version.micro.toNat, version.patch.toNat]

/-- The version that the first four of some components give. -/
def ofComponents (parts : List Nat) : Version :=
  let component := fun i => UInt32.ofNat (parts.getD i 0)
  ⟨component 0, component 1, component 2, component 3⟩

/-- The order of two lists of components, decided by the first that differ. -/
def compareComponents : List Nat → List Nat → Ordering
  | a :: as, b :: bs => (compare a b).then (compareComponents as bs)
  | [], [] => .eq
  | [], _ :: _ => .lt
  | _ :: _, [] => .gt

instance : Ord Version where
  compare a b := compareComponents a.components b.components

/-- The character between the components of a written version. -/
def separator (text : List Char) : Char :=
  if '.' ∈ text then '.' else '_'

/-- The components of a written version as texts. -/
def parts (text : List Char) : List (List Char) :=
  match text.splitOn (separator text) with
  | [] => []
  | first :: rest => first.dropWhile (· == 'V') :: rest

/-- Reads the components of a version, each of which has 32 bits. -/
def readParts (parts : List (List Char)) : Except Text.NumberFault (List Nat) :=
  parts.mapM (Text.readNat 10 Text.maxNat32)

/-- Reads a version. -/
def parse (text : String) : Except InputError Version :=
  match readParts (parts text.toList) with
  | .ok components => .ok (ofComponents components)
  | .error _ => .error (.version text)

/-- The components with a text between them. -/
def joined (between : String) (version : Version) : String :=
  between.intercalate (version.components.map toString)

/-- A version written with points. -/
def dotted (version : Version) : String :=
  version.joined "."

/-- A version written with commas, as the arguments of a version value. -/
def tuple (version : Version) : String :=
  version.joined ", "

/-- How a version relates to a written one. -/
def relationTo (version : Version) (text : String) : Except InputError Ordering := do
  let other ← parse text
  .ok (compare version other)

end Version

end NifBindings
