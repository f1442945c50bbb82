import NifBindings.Markup.Fault
import NifBindings.File.Fault

/-!
# Errors in the input

Everything that can be wrong with a schema text and the values of its attributes. Each of these
errors ends a run.
-/

namespace NifBindings

/-- What is wrong with the input. -/
inductive InputError where
  /-- The text is not markup. -/
  | markup (fault : Markup.Fault)
  /-- A reference in the text stands for nothing. -/
  | reference (fault : Markup.ReferenceFault)
  /-- An element lacks an attribute that it needs. -/
  | missingAttribute (element key : String)
  /-- An attribute has a value that it cannot have. -/
  | invalidAttribute (element key value : String)
  /-- A compound expression has none of the known shapes. -/
  | expression (text : String)
  /-- A version has a component that is no number. -/
  | version (text : String)
  /-- The document has no element. -/
  | noRootElement
  /-- The file with the text cannot be read. -/
  | file (fault : FileFault)
deriving DecidableEq, Repr

namespace InputError

/-- The wording of an error. -/
def message : InputError → String
  | .markup fault => "XML parsing error: " ++ fault.message
  | .reference fault => "XML escape error: " ++ fault.message
  | .missingAttribute element key =>
    "missing required attribute '" ++ key ++ "' on element '" ++ element ++ "'"
  | .invalidAttribute element key value =>
    "invalid value '" ++ value ++ "' for attribute '" ++ key ++ "' on element '" ++
      element ++ "'"
  | .expression text => "unrecognized expression '" ++ text ++ "'"
  | .version text => "invalid version string '" ++ text ++ "'"
  | .noRootElement => "invalid document structure: document has no root element"
  | .file fault => "IO error: " ++ fault.message

/-- The wordings of the faults that an error rests on, outermost first. -/
def causes : InputError → List String
  | .markup fault => [fault.message, fault.detail]
  | .reference fault => fault.message :: fault.causes
  | .file fault => [fault.message]
  | _ => []

end InputError

end NifBindings
