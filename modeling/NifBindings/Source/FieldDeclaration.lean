import NifBindings.Field.Guard
import NifBindings.Source.Line
import NifBindings.Model

/-!
# Declarations of fields

A field of a generated structure is declared with its type and with annotations for its reader: how
many elements there are, how stored bytes become truth values, when the field exists, and what its
own reader is given.
-/

namespace NifBindings

/-- Whether the reader of a compound takes an argument. -/
def takesArgument (profile : Profile) (model : Model) (name : String) : Bool :=
  profile.argumentCompounds.contains name ||
    (model.compounds.get? name).any Compound.mentionsArgument

/-- What the reader of a compound is given. -/
inductive ReaderArguments where
  /-- The version alone. -/
  | version
  /-- An argument and the version. -/
  | argument (value : Expr)
deriving DecidableEq, Repr

/-- The text of the arguments of a reader. -/
def ReaderArguments.render : ReaderArguments → String
  | .version => "_header_version,"
  | .argument value => value.render ++ " as usize, _header_version"

/-- How stored bytes become truth values. -/
inductive ByteMapping where
  /-- One byte. -/
  | single
  /-- An array of bytes of this type. -/
  | array (stored : String)
  /-- A sequence of bytes of this type. -/
  | sequence (stored : String)
deriving DecidableEq, Repr

/-- The closure of a mapping. -/
def ByteMapping.render : ByteMapping → String
  | .single => "|b: u8| b != 0"
  | .array stored => "|a: " ++ stored ++ "| a.map(|b| b != 0)"
  | .sequence stored => "|v: " ++ stored ++ "| v.into_iter().map(|b| b != 0).collect()"

/-- A declared field with its annotations. -/
structure FieldDeclaration where
  name : String
  /-- The type of one element. -/
  inner : String
  /-- How many elements there are. -/
  extent : Extent
  /-- The number of elements, if another field counts them. -/
  count : Option Expr
  /-- The mapping of stored bytes, if the elements are truth values. -/
  mapping : Option ByteMapping
  /-- When the field exists. -/
  guard : Guard
  /-- What the reader of the base type is given, if that is a compound. -/
  arguments : Option ReaderArguments
deriving DecidableEq, Repr

namespace FieldDeclaration

/-- The annotation with the number of elements. -/
def countLine (count : Expr) : String :=
  "    #[br(count = " ++ count.render ++ ")]"

/-- The annotation with the mapping of stored bytes. -/
def mappingLine (mapping : ByteMapping) : String :=
  "    #[br(map = " ++ mapping.render ++ ")]"

/-- The annotation with the guard. -/
def guardLine (guard : String) : String :=
  "    #[br(if(" ++ guard ++ "))]"

/-- The annotation with the arguments, which go to each element of a counted sequence. -/
def argumentsLine (extent : Extent) (arguments : ReaderArguments) : String :=
  match extent with
  | .counted _ => "    #[br(args \x7b inner: (" ++ arguments.render ++ ") \x7d)]"
  | _ => "    #[br(args(" ++ arguments.render ++ "))]"

/-- The type of the field, which may be absent if there is a guard. -/
def typeText (field : FieldDeclaration) : String :=
  let type := field.extent.wrap field.inner
  if field.guard.render?.isSome then optionalText type else type

/-- The line that declares the field. -/
def declarationLine (field : FieldDeclaration) : String :=
  "    pub " ++ field.name ++ ": " ++ field.typeText ++ ","

/-- The annotations in order, and the declaration behind them. -/
def lines (field : FieldDeclaration) : List String :=
  (field.count.map countLine).toList ++ (field.mapping.map mappingLine).toList ++
    (field.guard.render?.map guardLine).toList ++
    (field.arguments.map (argumentsLine field.extent)).toList ++ [field.declarationLine]

end FieldDeclaration

namespace FieldType

/-- The mapping of stored bytes, which have the shape of the field. -/
def byteMapping (type : FieldType) : Option ByteMapping :=
  if type.isTruthValue then
    let stored := { type with base := "u8" }.fullText
    match type.extent with
    | .single => some .single
    | .literal .. => some (.array stored)
    | .counted _ => some (.sequence stored)
  else none

/-- What the reader of the base type is given. Nought stands for an argument that is not
declared. -/
def readerArguments (profile : Profile) (model : Model) (type : FieldType) :
    Option ReaderArguments :=
  if model.compounds.contains type.base then
    if takesArgument profile model type.base then
      some (.argument (type.argumentExpr.getD (.numeral "0")))
    else some .version
  else none

/-- The declaration of a field. Its condition, versions and count must be readable. -/
def declaration (profile : Profile) (model : Model) (name : String) (type : FieldType) :
    Except InputError FieldDeclaration := do
  let guard ← type.guard
  let count ← type.countExpr
  .ok {
    name, guard, count
    inner := type.innerText
    extent := type.extent
    mapping := type.byteMapping
    arguments := type.readerArguments profile model }

end FieldType

/-- The declarations of all fields, in order. -/
def FieldMap.declarations (profile : Profile) (model : Model) (fields : FieldMap) :
    Except InputError (List FieldDeclaration) :=
  fields.entries.mapM fun (name, type) => type.declaration profile model name

end NifBindings
