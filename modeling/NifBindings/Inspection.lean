import NifBindings.Bindings
import NifBindings.CommandLine.Report

/-!
# Inspections

An inspection counts what a schema contributes for the default profile, shows one object, and lists
the findings.
-/

namespace NifBindings

/-- The object that is shown if no other is named. -/
def defaultFocus : String :=
  "NiAVObject"

/-- The lines that count the structures of a model. -/
def Model.countLines (model : Model) : List String :=
  ["nif.xml version " ++ model.version.getD "unknown",
    "  bitflags:  " ++ toString model.bitFlags.size,
    "  enums:     " ++ toString model.enumerations.size,
    "  bitfields: " ++ toString model.bitFields.size,
    "  compounds: " ++ toString model.compounds.size,
    "  objects:   " ++ toString model.objects.size]

/-- The line of a field. -/
def fieldLine (entry : String × FieldType) : String :=
  "    " ++ entry.1 ++ ": " ++ entry.2.display

/-- The lines that show an object. -/
def Model.focusLines (model : Model) (focus : String) : List String :=
  match model.objects.get? focus with
  | some object =>
    ["",
      focus ++ " (" ++ toString object.fields.size ++ " own fields)",
      "  ancestors:   " ++ " -> ".intercalate (model.hierarchy.ancestors focus),
      "  descendants: " ++ toString ((model.hierarchy.descendants focus).length - 1)] ++
    object.fields.entries.map fieldLine
  | none => ["", focus ++ " is not emitted for this profile"]

/-- The lines that list the findings, if there are any. -/
def Model.diagnosticLines (model : Model) : List String :=
  if model.diagnostics.isEmpty then []
  else
    ["", toString model.diagnostics.length ++ " diagnostic(s):"] ++
    model.diagnostics.map fun diagnostic => "  " ++ diagnostic.message

/-- The report of an inspection. -/
def Model.inspection (model : Model) (focus : String) : List String :=
  model.countLines ++ model.focusLines focus ++ model.diagnosticLines

/-- The inspection as a program. It is given a schema file, and perhaps the object to show. -/
def inspectionProgram {m : Type → Type} [Monad m] [FileAccess m] (arguments : List String) :
    m Outcome := do
  match arguments with
  | [] => return .failed "usage: inspect <nif.xml> [ObjectName]" []
  | path :: rest =>
    match ← Model.ofFile .default path with
    | .ok model => return ⟨0, joinLines (model.inspection (rest.headD defaultFocus)), ""⟩
    | .error error => return .failed error.message error.causes

end NifBindings
