import NifBindings.Json.Read
import NifBindings.Profile.Basic

/-!
# Profiles in JSON

A profile is an object whose members replace those of the default profile. Unknown members are
skipped, but a known one must occur once and have the right type. A list gives the members in their
fixed order.
-/

namespace NifBindings

/-- Why a value is no profile. -/
inductive ProfileError where
  /-- The text is not JSON, or a member has the wrong type. -/
  | malformed
  /-- A target version cannot be read. -/
  | version (text : String)
deriving DecidableEq, Repr

/-- The wording of an error. -/
def ProfileError.message : ProfileError → String
  | .malformed => "invalid target profile"
  | .version text => (InputError.version text).message

/-- A member of an object, with its key. -/
abbrev JsonMember := String × JsonValue

namespace JsonValue

/-- The members that a list gives to keys in a fixed order. -/
def positionalMembers (keys : List String) (items : List JsonValue) :
    Except ProfileError (List JsonMember) :=
  if items.length ≤ keys.length then .ok (keys.zip items) else .error .malformed

/-- The members of an object. Keys must have a text, and those in `keys` may occur only once. -/
def namedMembers (keys : List String) :
    List (Option String × JsonValue) → Except ProfileError (List JsonMember)
  | [] => .ok []
  | (none, _) :: _ => .error .malformed
  | (some key, value) :: rest => do
    let members ← namedMembers keys rest
    if keys.contains key && members.any (·.1 == key) then .error .malformed
    else .ok ((key, value) :: members)

/-- The members of an object, or of a list in a fixed order of keys. -/
def members (keys : List String) : JsonValue → Except ProfileError (List JsonMember)
  | .object members => namedMembers keys members
  | .list items => positionalMembers keys items
  | _ => .error .malformed

/-- The text of a string. -/
def readText : JsonValue → Except ProfileError String
  | .string (some text) => .ok text
  | _ => .error .malformed

/-- A truth value. -/
def readBool : JsonValue → Except ProfileError Bool
  | .bool value => .ok value
  | _ => .error .malformed

/-- The items of a list. -/
def readList {α : Type} (read : JsonValue → Except ProfileError α) :
    JsonValue → Except ProfileError (List α)
  | .list items => items.mapM read
  | _ => .error .malformed

/-- A value that may be null. -/
def readNullable {α : Type} (read : JsonValue → Except ProfileError α) :
    JsonValue → Except ProfileError (Option α)
  | .null => .ok none
  | value => (read value).map some

/-- A target version. -/
def readVersion (value : JsonValue) : Except ProfileError Version := do
  let text ← readText value
  (Version.parse text).mapError fun _ => .version text

end JsonValue

open JsonValue

/-- The value of a member. -/
def memberValue? (members : List JsonMember) (key : String) : Option JsonValue :=
  (members.find? (·.1 == key)).map Prod.snd

/-- Reads a member that may be missing. -/
def readMember {α : Type} (members : List JsonMember) (key : String)
    (read : JsonValue → Except ProfileError α) (missing : α) : Except ProfileError α :=
  match memberValue? members key with
  | some value => read value
  | none => .ok missing

/-- Reads a member that must be there. -/
def requireMember {α : Type} (members : List JsonMember) (key : String)
    (read : JsonValue → Except ProfileError α) : Except ProfileError α :=
  match memberValue? members key with
  | some value => read value
  | none => .error .malformed

/-- The keys of a correction in their fixed order. -/
def FieldOverride.keys : List String :=
  ["owner", "field", "arr1", "clear_condition"]

/-- Reads a correction, which must name an owner and a field. -/
def FieldOverride.ofJson (value : JsonValue) : Except ProfileError FieldOverride := do
  let members ← JsonValue.members FieldOverride.keys value
  let length ← readMember members "arr1" (readNullable readText) none
  let clearCondition ← readMember members "clear_condition" readBool false
  let field ← requireMember members "field" readText
  let owner ← requireMember members "owner" readText
  .ok ⟨owner, field, length, clearCondition⟩

namespace Profile

/-- The keys of a profile in their fixed order. -/
def keys : List String :=
  ["versions", "skip_version_specific", "excluded_modules", "excluded_names",
    "excluded_name_fragments", "excluded_name_prefixes", "vercond_sentinels", "vercond_prefixes",
    "excluded_conds", "root_object", "field_overrides", "arg_compounds", "manual_compounds"]

/-- Reads a profile. Members are read in the order of their keys, so that the versions come last. -/
def ofJson (value : JsonValue) : Except ProfileError Profile := do
  let members ← JsonValue.members keys value
  let texts := readList readText
  let argumentCompounds ← readMember members "arg_compounds" texts default.argumentCompounds
  let excludedConditions ← readMember members "excluded_conds" texts default.excludedConditions
  let excludedModules ← readMember members "excluded_modules" texts default.excludedModules
  let excludedFragments ←
    readMember members "excluded_name_fragments" texts default.excludedFragments
  let excludedBeginnings ←
    readMember members "excluded_name_prefixes" texts default.excludedBeginnings
  let excludedNames ← readMember members "excluded_names" texts default.excludedNames
  let fieldOverrides ←
    readMember members "field_overrides" (readList FieldOverride.ofJson) default.fieldOverrides
  let manualCompounds ← readMember members "manual_compounds" texts default.manualCompounds
  let rootObject ← readMember members "root_object" readText default.rootObject
  let skipVersionSpecific ←
    readMember members "skip_version_specific" readBool default.skipVersionSpecific
  let acceptedBeginnings ← readMember members "vercond_prefixes" texts default.acceptedBeginnings
  let acceptedConditions ← readMember members "vercond_sentinels" texts default.acceptedConditions
  let versions ← readMember members "versions" (readList readVersion) default.versions
  .ok {
    versions, skipVersionSpecific, excludedModules, excludedNames, excludedFragments,
    excludedBeginnings, acceptedConditions, acceptedBeginnings, excludedConditions, rootObject,
    fieldOverrides, argumentCompounds, manualCompounds }

/-- Reads a profile from a JSON text. -/
def parse (text : String) : Except ProfileError Profile :=
  match JsonValue.parse? text with
  | some value => ofJson value
  | none => .error .malformed

end Profile

end NifBindings
