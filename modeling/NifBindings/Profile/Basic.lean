import NifBindings.Version

/-!
# Profiles

A profile says which versions of the format the bindings support and what is left out of them. The
default profile leaves out the modules of one vendor.
-/

namespace NifBindings

/-- A correction of one field. -/
structure FieldOverride where
  /-- The generated name of the compound or object that has the field. -/
  owner : String
  /-- The generated name of the field. -/
  field : String
  /-- The element count that replaces the declared one. -/
  length : Option String := none
  /-- Whether the condition of the field is dropped. -/
  clearCondition : Bool := false
deriving DecidableEq, Repr

/-- The target versions and the rules that leave things out. -/
structure Profile where
  /-- The versions that the bindings must support together. -/
  versions : List Version
  /-- Leave out every structure that lists versions of its own. -/
  skipVersionSpecific : Bool
  /-- Modules that are left out as a whole. -/
  excludedModules : List String
  /-- Names of structures that are left out. -/
  excludedNames : List String
  /-- Parts of names, in either case, whose structures are left out. -/
  excludedFragments : List String
  /-- Beginnings of names whose structures are left out. -/
  excludedBeginnings : List String
  /-- Version conditions of members that are accepted. -/
  acceptedConditions : List String
  /-- Beginnings of version conditions of members that are accepted. -/
  acceptedBeginnings : List String
  /-- Conditions whose members are left out. -/
  excludedConditions : List String
  /-- The object that every other object descends from. -/
  rootObject : String
  /-- Corrections of fields. -/
  fieldOverrides : List FieldOverride
  /-- Compounds whose readers take an argument. -/
  argumentCompounds : List String
  /-- Compounds that are written by hand. -/
  manualCompounds : List String
deriving DecidableEq, Repr

namespace Profile

/-- The profile that holds where nothing else is said. -/
def default : Profile where
  versions := [⟨20, 1, 0, 3⟩, ⟨20, 2, 0, 7⟩, ⟨20, 2, 0, 8⟩, ⟨20, 3, 0, 9⟩, ⟨20, 6, 0, 0⟩]
  skipVersionSpecific := true
  excludedModules := ["BSMain", "BSAnimation", "BSParticle", "BSHavok", "BSLegacy"]
  excludedNames := ["RendererID", "BoneTransform"]
  excludedFragments := ["physx"]
  excludedBeginnings := ["bhk"]
  acceptedConditions := ["#NISTREAM#"]
  acceptedBeginnings := ["!", "#NI", "#BSVER# #LT"]
  excludedConditions := ["#BSSTREAMHEADER#"]
  rootObject := "NiObject"
  fieldOverrides := [⟨"NiPalette", "palette", some "Num Entries", true⟩]
  argumentCompounds := ["Morph", "NiAGDDataBlocks"]
  manualCompounds := ["SizedString", "SizedString16", "Key", "KeyGroup", "BoundingVolume"]

instance : Inhabited Profile := ⟨default⟩

/-- The profile with other target versions. -/
def withVersions (profile : Profile) (versions : List Version) : Profile :=
  { profile with versions := versions }

/-- The first correction of a field. -/
def fieldOverride? (profile : Profile) (owner field : String) : Option FieldOverride :=
  profile.fieldOverrides.find? fun rule => rule.owner == owner && rule.field == field

/-- Whether a compound is written by hand. -/
def isManual (profile : Profile) (name : String) : Bool :=
  profile.manualCompounds.contains name

end Profile

end NifBindings
