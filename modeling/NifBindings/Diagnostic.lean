/-!
# Diagnostics

Findings about a schema that do not stop a run, in the order in which they are made.
-/

namespace NifBindings

/-- A finding. -/
inductive Diagnostic where
  /-- A field was declared again with another shape, and the first declaration was kept. -/
  | fieldConflict (owner field old new : String)
  /-- An object inherits from a type that is no object of the model. -/
  | unresolvedParent (object parent : String)
deriving DecidableEq, Repr

namespace Diagnostic

/-- The wording of a finding. -/
def message : Diagnostic → String
  | .fieldConflict owner field old new =>
    "redeclaration of field " ++ field ++ " in " ++ owner ++
      " with incompatible signature (old: " ++ old ++ ", new: " ++ new ++ ")"
  | .unresolvedParent object parent => object ++ " inherits from unknown type " ++ parent

/-- Whether a finding is about a field. -/
def isConflict : Diagnostic → Bool
  | .fieldConflict .. => true
  | .unresolvedParent .. => false

end Diagnostic

/-- The number of findings about fields. -/
def conflictCount (diagnostics : List Diagnostic) : Nat :=
  diagnostics.countP Diagnostic.isConflict

end NifBindings
