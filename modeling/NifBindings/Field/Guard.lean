import NifBindings.Version
import NifBindings.Expr.Parse
import NifBindings.Field.Type

/-!
# Guards

The generated reader reads a field if its guard holds: its condition, and the version in the header
of the file lying in the range that the field declares. A field with neither is always read.
-/

namespace NifBindings

/-- A range of versions, open where it has no bound. -/
structure VersionRange where
  first : Option Version := none
  last : Option Version := none
deriving DecidableEq, Repr

namespace VersionRange

/-- Whether a version lies in the range. -/
def contains (range : VersionRange) (version : Version) : Bool :=
  range.first.all (fun first => compare first version != .gt) &&
    range.last.all (fun last => compare version last != .gt)

/-- The check against the first version. -/
def firstText (first : Version) : String :=
  "FileVersion(" ++ first.tuple ++ ") <= _header_version"

/-- The check against the last version. -/
def lastText (last : Version) : String :=
  "_header_version <= FileVersion(" ++ last.tuple ++ ")"

/-- The check of a range, if it has a bound. -/
def render? (range : VersionRange) : Option String :=
  match range.first, range.last with
  | none, none => none
  | some first, none => some (firstText first)
  | none, some last => some (lastText last)
  | some first, some last => some (firstText first ++ " && " ++ lastText last)

end VersionRange

/-- What must hold for a field to be read. -/
structure Guard where
  condition : Option Expr := none
  range : VersionRange := {}
deriving DecidableEq, Repr

/-- The text of a guard. A condition and a range are kept apart by parentheses. -/
def Guard.render? (guard : Guard) : Option String :=
  match guard.condition.map Expr.render, guard.range.render? with
  | some condition, some range => some ("(" ++ condition ++ ") && (" ++ range ++ ")")
  | some condition, none => some condition
  | none, range? => range?

/-- Applies a reader to a value if there is one. -/
def readOptional {α β : Type} (read : α → Except InputError β) :
    Option α → Except InputError (Option β)
  | none => .ok none
  | some value => (read value).map some

namespace FieldType

/-- The condition of a field as an expression. -/
def conditionExpr (type : FieldType) : Except InputError (Option Expr) :=
  readOptional Expr.parse type.condition

/-- The versions that have a field. -/
def versionRange (type : FieldType) : Except InputError VersionRange := do
  let first ← readOptional Version.parse type.since
  let last ← readOptional Version.parse type.last
  .ok ⟨first, last⟩

/-- The guard of a field. -/
def guard (type : FieldType) : Except InputError Guard := do
  let condition ← type.conditionExpr
  let range ← type.versionRange
  .ok ⟨condition, range⟩

/-- The number of elements as an expression, if another field counts them. -/
def countExpr (type : FieldType) : Except InputError (Option Expr) :=
  match type.extent with
  | .counted length => (Expr.parse length).map some
  | _ => .ok none

/-- The argument for the reader of the base type. It is a single name or number, operators in it are
not read. -/
def argumentExpr (type : FieldType) : Option Expr :=
  type.argument.map Expr.leaf

end FieldType

end NifBindings
