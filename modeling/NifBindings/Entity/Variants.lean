import NifBindings.Text.Blank
import NifBindings.Text.Number
import NifBindings.Identifier
import NifBindings.Inclusion

/-!
# Bit flags and enumerations

Both are sets of named numbers in a storage type: bit positions in one case, values in the other. A
declared beginning of their names is put in front of every name.
-/

namespace NifBindings

/-- The name of an option behind the beginning that its set declares. -/
def qualifiedVariant (beginning : Option String) (name : String) : String :=
  match beginning with
  | some text => text ++ "_" ++ variantName name
  | none => variantName name

/-- A set of named bits. -/
structure BitFlags where
  name : String
  doc : List String
  /-- The type that holds the bits. -/
  storage : String
  /-- The position of each bit. -/
  flags : OrderedMap String Nat

/-- A set of named values. -/
structure Enumeration where
  name : String
  doc : List String
  /-- The type that holds the value. -/
  storage : String
  /-- What every name begins with. -/
  beginning : Option String
  /-- The value of each name. -/
  options : OrderedMap String Int

/-- A number in an attribute, which must be present and readable. -/
def readAttribute {α : Type} (element : Element) (key : String)
    (read : List Char → Except Text.NumberFault α) : Except InputError α := do
  let text ← element.require key
  (read text.toList).mapError fun _ => .invalidAttribute element.tag key text

/-- Reads the value of an option, which is hexadecimal behind `0x`. -/
def readOptionValue (text : List Char) : Except Text.NumberFault Int :=
  match text with
  | '0' :: 'x' :: digits => Text.readInt64 16 digits
  | _ => Text.readInt64 10 text

/-- The named numbers of some elements, each read from the attribute `key`. -/
def readVariants {α : Type} (beginning : Option String) (key : String)
    (read : List Char → Except Text.NumberFault α) (members : List Element) :
    Except InputError (OrderedMap String α) :=
  members.foldlM (fun variants member => do
    let value ← readAttribute member key read
    let name ← member.require "name"
    .ok (variants.insert (qualifiedVariant beginning name) value)) OrderedMap.empty

/-- The bit flags of an entry. -/
def BitFlags.ofElement (profile : Profile) (entry : Element) : Except InputError BitFlags := do
  let members ← profile.emittedMembers entry
  let flags ← readVariants (entry.get? "prefix") "bit" (Text.readNat 10 Text.maxNat32) members
  let name ← entry.require "name"
  let storage ← entry.require "storage"
  .ok ⟨name, Text.docLines entry.text, typeName storage, flags⟩

/-- The enumeration of an entry. -/
def Enumeration.ofElement (profile : Profile) (entry : Element) :
    Except InputError Enumeration := do
  let members ← profile.emittedMembers entry
  let options ← readVariants (entry.get? "prefix") "value" readOptionValue members
  let name ← entry.require "name"
  let storage ← entry.require "storage"
  .ok ⟨name, Text.docLines entry.text, typeName storage, entry.get? "prefix", options⟩

end NifBindings
