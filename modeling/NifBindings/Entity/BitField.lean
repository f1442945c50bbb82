import NifBindings.Text.Blank
import NifBindings.Inclusion
import NifBindings.Field.Type

/-!
# Bit fields

A bit field packs several values into one integer. The default of a member whose type is an
enumeration is the name of an option, and gets what the names of that enumeration begin with.
-/

namespace NifBindings

/-- A value inside a bit field. -/
structure BitFieldMember where
  type : FieldType
  /-- The position of the lowest bit. -/
  position : String
  /-- The bits of the value. -/
  mask : String
  /-- The default value, for the documentation. -/
  default? : Option String
deriving DecidableEq, Repr

/-- Several values packed into one integer. -/
structure BitField where
  name : String
  doc : List String
  /-- The type of the integer. -/
  storage : String
  /-- The layout of each value. -/
  members : OrderedMap String BitFieldMember

/-- A default value with what the names of its enumeration begin with. -/
def qualifiedDefault (beginning : Option String) (value : String) : String :=
  match beginning with
  | some text => text ++ "_" ++ value
  | none => value

/-- Adds a member to those before it. -/
def BitField.addMember (beginnings : OrderedMap String String)
    (members : OrderedMap String BitFieldMember) (member : Element) :
    Except InputError (OrderedMap String BitFieldMember) := do
  let type ← FieldType.ofAttributes member.tag member.attributes
  let name ← member.require "name"
  let position ← member.require "pos"
  let mask ← member.require "mask"
  let default? := (member.get? "default").map (qualifiedDefault (beginnings.get? type.base))
  .ok (members.insert (fieldName name) ⟨type, position, mask, default?⟩)

/-- The bit field of an entry. The beginnings are those of the names of each enumeration that
declares one. -/
def BitField.ofElement (profile : Profile) (beginnings : OrderedMap String String)
    (entry : Element) : Except InputError BitField := do
  let emitted ← profile.emittedMembers entry
  let members ← emitted.foldlM (BitField.addMember beginnings) OrderedMap.empty
  let name ← entry.require "name"
  let storage ← entry.require "storage"
  .ok ⟨name, Text.docLines entry.text, typeName storage, members⟩

end NifBindings
