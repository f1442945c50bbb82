import NifBindings.Source.Line
import NifBindings.Model

/-!
# Sources of bit fields

A bit field is a new type around an integer, with one accessor for each value in it. The type of a
value decides how its bits are turned into it.
-/

namespace NifBindings

/-- How an accessor turns bits into a value. -/
inductive Accessor where
  /-- A truth value, which holds if some bit is set. -/
  | truthValue
  /-- A value of an enumeration with this storage, which may be unknown. -/
  | enumeration (storage : String)
  /-- A value of the type of the whole integer. -/
  | whole
  /-- A value of another type. -/
  | converted
deriving DecidableEq, Repr

/-- The accessor for a member of a bit field with this storage. -/
def BitFieldMember.accessor (model : Model) (storage : String) (member : BitFieldMember) :
    Accessor :=
  if member.type.isTruthValue then .truthValue
  else
    match model.enumerations.get? member.type.base with
    | some enumeration => .enumeration enumeration.storage
    | none => if member.type.innerText = storage then .whole else .converted

namespace BitField

/-- What the source of all bit fields begins with. -/
def preamble : List String :=
  ["use binrw::BinRead;", "", "use crate::enums::*;", ""]

/-- The bits of a member, shifted to the lowest place. -/
def rawText (member : BitFieldMember) : String :=
  "((self.0 & " ++ member.mask ++ ") >> " ++ member.position ++ ")"

/-- The comment with a default value. -/
def defaultLine (value : String) : String :=
  "    /// Defaults to `" ++ value ++ "`."

/-- The line that begins an accessor with this result. -/
def signatureLine (name result : String) : String :=
  "    pub fn " ++ name ++ "(&self) -> " ++ result ++ " \x7b"

/-- The signature and the body of an accessor. -/
def accessorBody (name : String) (member : BitFieldMember) : Accessor → List String
  | .truthValue =>
    [signatureLine name "bool", "        (self.0 & " ++ member.mask ++ ") != 0"]
  | .enumeration storage =>
    [signatureLine name (optionalText member.type.innerText),
      "        " ++ member.type.innerText ++ "::try_from(" ++ rawText member ++ " as " ++
        storage ++ ").ok()"]
  | .whole => [signatureLine name member.type.innerText, "        " ++ rawText member]
  | .converted =>
    [signatureLine name member.type.innerText,
      "        " ++ rawText member ++ " as " ++ member.type.innerText]

/-- The source of an accessor. -/
def accessorLines (model : Model) (storage : String) (entry : String × BitFieldMember) :
    List String :=
  (entry.2.default?.map defaultLine).toList ++
  ["    #[inline]",
    "    #[must_use]"] ++
  accessorBody entry.1 entry.2 (entry.2.accessor model storage) ++
  ["    \x7d",
    ""]

/-- The source of a bit field. -/
def lines (model : Model) (bitField : BitField) : List String :=
  docComment "" bitField.doc ++
  ["#[derive(Clone, Copy, Debug, Default, PartialEq, Eq, Hash, BinRead)]",
    "pub struct " ++ bitField.name ++ "(pub " ++ bitField.storage ++ ");",
    "",
    "impl " ++ bitField.name ++ " \x7b"] ++
  bitField.members.entries.flatMap (accessorLines model bitField.storage) ++
  ["\x7d",
    ""]

/-- The source of all bit fields of a model. -/
def source (model : Model) : List String :=
  preamble ++ model.bitFields.values.flatMap (lines model)

end BitField

end NifBindings
