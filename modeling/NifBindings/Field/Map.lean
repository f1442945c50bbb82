import NifBindings.Field.Type

/-!
# Field maps

The fields of a compound or object are kept under their names in order of declaration. A name may be
declared again: declarations of one shape are joined, and any other keeps the first.
-/

namespace NifBindings

/-- Fields in order of their first declaration. -/
abbrev FieldMap := OrderedMap String FieldType

/-- What became of a declaration. -/
inductive Declared where
  /-- The name was new. -/
  | inserted
  /-- Neither declaration has a condition, so that the new one says nothing. -/
  | dropped
  /-- The conditions of both declarations were joined. -/
  | merged
  /-- The shapes differ, and the old declaration was kept. -/
  | conflict (old new : FieldType)
deriving DecidableEq, Repr

/-- The condition under which one of two declarations holds. It is written in the words of the
schema, and a declaration without a condition always holds. -/
def joinConditions : Option String → Option String → Option String
  | some old, some new => some ("(" ++ old ++ ") #OR# (" ++ new ++ ")")
  | _, _ => none

namespace FieldMap

/-- Declares a field. -/
def declare (fields : FieldMap) (name : String) (type : FieldType) : FieldMap × Declared :=
  match fields.get? name with
  | none => (fields.insert name type, .inserted)
  | some old =>
    if old.condition.isNone && type.condition.isNone then (fields, .dropped)
    else if old.matchesShape type then
      (fields.insert name
        { old with condition := joinConditions old.condition type.condition }, .merged)
    else (fields, .conflict old type)

end FieldMap

end NifBindings
