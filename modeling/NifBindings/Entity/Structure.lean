import NifBindings.Text.Blank
import NifBindings.Diagnostic
import NifBindings.Inclusion
import NifBindings.Field.Map

/-!
# Compounds and objects

Compounds are values inside other structures; objects are the blocks of a file and inherit from one
another. Both have fields, which are declared one after the other and corrected by the profile
first.
-/

namespace NifBindings

/-- A field type with a correction applied. -/
def FieldOverride.apply (rule : FieldOverride) (type : FieldType) : FieldType :=
  { type with
    length := rule.length.or type.length
    condition := if rule.clearCondition then none else type.condition }

/-- The declared name and the corrected type of a member. -/
def declaredField (profile : Profile) (owner : String) (member : Element) :
    Except InputError (String × FieldType) := do
  let name ← member.require "name"
  let type ← FieldType.ofAttributes member.tag member.attributes
  match profile.fieldOverride? owner (fieldName name) with
  | some rule => .ok (fieldName name, rule.apply type)
  | none => .ok (fieldName name, type)

/-- The finding about a declaration, if it was in conflict with an earlier one. -/
def Declared.diagnostic? (owner name : String) : Declared → Option Diagnostic
  | .conflict old new => some (.fieldConflict owner name old.display new.display)
  | _ => none

/-- Declares fields one after the other and collects the findings. -/
def declareAll (owner : String) (fields : FieldMap) :
    List (String × FieldType) → FieldMap × List Diagnostic
  | [] => (fields, [])
  | (name, type) :: rest =>
    let (fields', declared) := fields.declare name type
    let (result, findings) := declareAll owner fields' rest
    (result, (declared.diagnostic? owner name).toList ++ findings)

/-- The fields of an entry with the findings about them. -/
def readFields (profile : Profile) (owner : String) (entry : Element) :
    Except InputError (FieldMap × List Diagnostic) := do
  let members ← profile.emittedMembers entry
  let declarations ← members.mapM (declaredField profile owner)
  .ok (declareAll owner OrderedMap.empty declarations)

/-- A value inside other structures. -/
structure Compound where
  name : String
  doc : List String
  /-- Whether it takes a type argument. -/
  generic : Bool
  fields : FieldMap

namespace Compound

/-- The compound of an entry with the findings about its fields. -/
def ofElement (profile : Profile) (entry : Element) :
    Except InputError (Compound × List Diagnostic) := do
  let name ← entry.require "name"
  let (fields, findings) ← readFields profile (typeName name) entry
  .ok (⟨typeName name, Text.docLines entry.text, entry.get? "generic" == some "true", fields⟩,
    findings)

/-- Whether some field refers to the argument of the reader. -/
def mentionsArgument (compound : Compound) : Bool :=
  compound.fields.values.any FieldType.mentionsArgument

end Compound

/-- A block of a file. -/
structure NiObject where
  name : String
  doc : List String
  /-- The object it inherits from, unless that is the root. -/
  parent : Option String
  /-- Whether no block is of this type itself. -/
  isAbstract : Bool
  /-- The fields that it declares itself. -/
  fields : FieldMap

/-- The object of an entry with the findings about its fields. -/
def NiObject.ofElement (profile : Profile) (entry : Element) :
    Except InputError (NiObject × List Diagnostic) := do
  let name ← entry.require "name"
  let inherit ← entry.require "inherit"
  let (fields, findings) ← readFields profile (structureName name) entry
  let parent := if inherit = profile.rootObject then none else some (structureName inherit)
  .ok (⟨structureName name, Text.docLines entry.text, parent,
    entry.get? "abstract" == some "true", fields⟩, findings)

end NifBindings
