import NifBindings.Text.Case
import NifBindings.Text.Search
import NifBindings.Markup.Element
import NifBindings.Profile.Basic

/-!
# Inclusion

Which structures of a schema, and which of their members, belong to a profile. Only attributes and
the profile decide, and leaving something out is never reported.
-/

namespace NifBindings

/-- Whether some version passes a check. Later versions are not tried, so that their errors do not
count. -/
def anyVersion (check : Version → Except InputError Bool) :
    List Version → Except InputError Bool
  | [] => .ok false
  | version :: rest => do
    if ← check version then .ok true else anyVersion check rest

/-- Whether a version is at or above a written one. -/
def Version.atLeast (version : Version) (text : String) : Except InputError Bool :=
  (version.relationTo text).map (· != .lt)

/-- Whether a version is at or below a written one. -/
def Version.atMost (version : Version) (text : String) : Except InputError Bool :=
  (version.relationTo text).map (· != .gt)

/-- Whether a version is one of those written in a list. -/
def Version.isListed (version : Version) : List String → Except InputError Bool
  | [] => .ok false
  | text :: rest => do
    let relation ← version.relationTo text
    if relation = .eq then .ok true else version.isListed rest

/-- The texts between the spaces of a list of versions. -/
def listedVersions (text : String) : List String :=
  (text.toList.splitOn ' ').map String.ofList

/-- Whether a structure with these attributes exists in a version. A version at or above `until`
passes. -/
def existsIn (attributes : Attributes) (version : Version) : Except InputError Bool :=
  match attributes.get? "since", attributes.get? "versions" with
  | some since, none => do
    if ← version.atLeast since then
      match attributes.get? "until" with
      | some last => version.atLeast last
      | none => .ok true
    else .ok false
  | _, some versions =>
    if Text.beginsWith versions "#" then .ok true
    else version.isListed (listedVersions versions)
  | none, none => .ok true

/-- The elements that pass a check, in order. The first error ends the search. -/
def filterEmitted (emits : Attributes → Except InputError Bool) :
    List Element → Except InputError (List Element)
  | [] => .ok []
  | element :: rest => do
    let emitted ← emits element.attributes
    let others ← filterEmitted emits rest
    .ok (if emitted then element :: others else others)

namespace Profile

/-- Whether a structure is left out for its module or its name. -/
def excludes (profile : Profile) (attributes : Attributes) : Bool :=
  (match attributes.get? "module" with
    | some name => profile.excludedModules.contains name
    | none => false) ||
  match attributes.get? "name" with
  | some name =>
    profile.excludedNames.contains name ||
      profile.excludedFragments.any (fun part => Text.holds (Text.lower name) (Text.lower part)) ||
      profile.excludedBeginnings.any (fun start => Text.beginsWith name start)
  | none => false

/-- Whether a structure with these attributes is generated. -/
def emitsEntry (profile : Profile) (attributes : Attributes) : Except InputError Bool :=
  if profile.skipVersionSpecific && attributes.contains "versions" then .ok false
  else if profile.excludes attributes then .ok false
  else anyVersion (existsIn attributes) profile.versions

/-- Whether a version condition of a member is accepted. -/
def acceptsCondition (profile : Profile) (condition : String) : Bool :=
  profile.acceptedConditions.contains condition ||
    profile.acceptedBeginnings.any fun start => Text.beginsWith condition start

/-- Whether a member with these attributes exists in a version. -/
def memberExistsIn (attributes : Attributes) (version : Version) : Except InputError Bool := do
  let started ←
    match attributes.get? "ver1" with
    | some first => version.atLeast first
    | none => .ok true
  if started then
    match attributes.get? "ver2" with
    | some last => version.atMost last
    | none => .ok true
  else .ok false

/-- Whether a member with these attributes is generated, its structure being so. -/
def emitsMember (profile : Profile) (attributes : Attributes) : Except InputError Bool := do
  if ← anyVersion (memberExistsIn attributes) profile.versions then
    let accepted :=
      match attributes.get? "vercond" with
      | some condition => profile.acceptsCondition condition
      | none => true
    let kept :=
      match attributes.get? "cond" with
      | some condition => !profile.excludedConditions.contains condition
      | none => true
    .ok (accepted && kept)
  else .ok false

/-- The members of a structure that are generated. -/
def emittedMembers (profile : Profile) (entry : Element) : Except InputError (List Element) :=
  filterEmitted profile.emitsMember entry.children

end Profile

end NifBindings
