import NifBindings.Text.Search
import NifBindings.Text.Numeric
import NifBindings.Identifier
import NifBindings.Markup.Element

/-!
# Field types

A field type is a base type, how many elements of it there are, and when they are there. Numbers
written out are literal counts; any other count comes from another field.
-/

namespace NifBindings

/-- The storage of one field. -/
structure FieldType where
  /-- The generated name of the base type. -/
  base : String
  /-- The generated name of the type argument. -/
  parameter : Option String := none
  /-- The element count. -/
  length : Option String := none
  /-- A second literal count, which is added to the first. -/
  extraLength : Option String := none
  /-- The argument for the reader of the base type. -/
  argument : Option String := none
  /-- The condition under which the field exists. -/
  condition : Option String := none
  /-- The first version that has the field. -/
  since : Option String := none
  /-- The last version that has the field. -/
  last : Option String := none
deriving DecidableEq, Repr

/-- How many elements a field has. -/
inductive Extent where
  /-- One element that is no sequence. -/
  | single
  /-- A literal number of elements, perhaps with a second one added. -/
  | literal (first : String) (second : Option String)
  /-- As many elements as an expression says. -/
  | counted (expression : String)
deriving DecidableEq, Repr

/-- The text of a type with its elements counted. -/
def Extent.wrap (extent : Extent) (inner : String) : String :=
  match extent with
  | .single => inner
  | .literal first none => "[" ++ inner ++ "; " ++ first ++ "]"
  | .literal first (some second) => "[" ++ inner ++ "; " ++ first ++ " + " ++ second ++ "]"
  | .counted _ => "Vec<" ++ inner ++ ">"

/-- The text of a type that may be absent. -/
def optionalText (type : String) : String :=
  "Option<" ++ type ++ ">"

namespace FieldType

/-- The field type that the attributes of an element describe. -/
def ofAttributes (element : String) (attributes : Attributes) : Except InputError FieldType := do
  let base ← attributes.require element "type"
  .ok {
    base := typeName base
    parameter := (attributes.get? "template").map typeName
    length := attributes.get? "arr1"
    extraLength := attributes.get? "arr2"
    argument := attributes.get? "arg"
    condition := attributes.get? "cond"
    since := attributes.get? "ver1"
    last := attributes.get? "ver2" }

/-- How many elements there are. -/
def extent (type : FieldType) : Extent :=
  match type.length with
  | none => .single
  | some length =>
    if Text.isNumeric length then .literal length (type.extraLength.filter Text.isNumeric)
    else .counted length

/-- The base type with its argument. -/
def innerText (type : FieldType) : String :=
  match type.parameter with
  | some parameter => type.base ++ "<" ++ parameter ++ ">"
  | none => type.base

/-- The type with its elements counted, whether or not it may be absent. -/
def fullText (type : FieldType) : String :=
  type.extent.wrap type.innerText

/-- Whether the field has a condition. -/
def isOptional (type : FieldType) : Bool :=
  type.condition.isSome

/-- The type as it is reported. -/
def display (type : FieldType) : String :=
  if type.isOptional then optionalText type.fullText else type.fullText

/-- Whether another field counts the elements. -/
def isCounted (type : FieldType) : Bool :=
  match type.extent with
  | .counted _ => true
  | _ => false

/-- Whether the field holds truth values, which are stored as bytes. -/
def isTruthValue (type : FieldType) : Bool :=
  type.base == "bool"

/-- Whether the text of an expression refers to the argument of the reader. -/
def refersToArgument (text : String) : Bool :=
  Text.holds text "#ARG#"

/-- Whether some expression of the field refers to the argument of the reader. -/
def mentionsArgument (type : FieldType) : Bool :=
  [type.condition, type.length, type.extraLength, type.argument].any (·.any refersToArgument)

/-- Whether two declarations read the same bytes when their conditions hold. -/
def matchesShape (a b : FieldType) : Bool :=
  a.base == b.base && a.parameter == b.parameter && a.length == b.length &&
    a.extraLength == b.extraLength && a.argument == b.argument

/-- Two declarations match exactly if nothing but conditions and versions tells them apart. -/
theorem matchesShape_iff {a b : FieldType} :
    a.matchesShape b = true ↔
      b = { a with condition := b.condition, since := b.since, last := b.last } := by
  cases a
  cases b
  simp only [matchesShape, Bool.and_eq_true, beq_iff_eq, FieldType.mk.injEq, and_true]
  constructor
  · rintro ⟨⟨⟨⟨h₁, h₂⟩, h₃⟩, h₄⟩, h₅⟩
    exact ⟨h₁.symm, h₂.symm, h₃.symm, h₄.symm, h₅.symm⟩
  · rintro ⟨h₁, h₂, h₃, h₄, h₅⟩
    exact ⟨⟨⟨⟨h₁.symm, h₂.symm⟩, h₃.symm⟩, h₄.symm⟩, h₅.symm⟩

end FieldType

end NifBindings
