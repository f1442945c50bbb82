import NifBindings.Markup.Document
import NifBindings.Entity.Variants
import NifBindings.Entity.BitField
import NifBindings.Entity.Structure
import NifBindings.Hierarchy

/-!
# Models

A model holds every structure of a schema that belongs to a profile. Entries are first chosen; then
bit flags and enumerations are read, because bit fields refer to enumerations; then the rest; and at
last the hierarchy is resolved.
-/

namespace NifBindings

/-- Why there is no model. -/
inductive ModelError where
  /-- The input is wrong. -/
  | input (error : InputError)
  /-- Objects inherit from one another in a cycle. -/
  | cycle (path : List String)
deriving DecidableEq, Repr

namespace ModelError

/-- The wording of an error. -/
def message : ModelError → String
  | .input error => "parse error: " ++ error.message
  | .cycle path => "circular inheritance detected: " ++ " -> ".intercalate path

/-- The wordings of the errors that an error rests on, outermost first. -/
def causes : ModelError → List String
  | .input error => error.message :: error.causes
  | .cycle _ => []

end ModelError

/-- What an entry of a document describes. -/
inductive EntryKind where
  | bitFlags
  | enumeration
  | bitField
  | compound
  | object
deriving DecidableEq, Repr

/-- What an entry with this tag describes. Other tags describe nothing of a model. -/
def EntryKind.ofTag? (tag : String) : Option EntryKind :=
  match tag with
  | "bitflags" => some .bitFlags
  | "enum" => some .enumeration
  | "bitfield" => some .bitField
  | "struct" => some .compound
  | "compound" => some .compound
  | "niobject" => some .object
  | _ => none

/-- The bit flags and enumerations of a model. -/
structure Variants where
  bitFlags : OrderedMap String BitFlags := OrderedMap.empty
  enumerations : OrderedMap String Enumeration := OrderedMap.empty

namespace Variants

/-- Adds what an entry describes, if that is bit flags or an enumeration. -/
def addEntry (profile : Profile) (variants : Variants) (entry : Element) :
    Except InputError Variants :=
  match EntryKind.ofTag? entry.tag with
  | some .bitFlags => do
    let flags ← BitFlags.ofElement profile entry
    .ok { variants with bitFlags := variants.bitFlags.insert flags.name flags }
  | some .enumeration => do
    let enumeration ← Enumeration.ofElement profile entry
    .ok { variants with
      enumerations := variants.enumerations.insert enumeration.name enumeration }
  | _ => .ok variants

/-- What the names of each enumeration begin with, for those that declare it. -/
def beginnings (variants : Variants) : OrderedMap String String :=
  .ofList (variants.enumerations.values.filterMap fun enumeration =>
    enumeration.beginning.map fun text => (enumeration.name, text))

end Variants

/-- The bit fields, compounds and objects of a model, with the findings about them. -/
structure Structures where
  bitFields : OrderedMap String BitField := OrderedMap.empty
  compounds : OrderedMap String Compound := OrderedMap.empty
  objects : OrderedMap String NiObject := OrderedMap.empty
  diagnostics : List Diagnostic := []

/-- Adds what an entry describes, if that is a bit field, a compound or an object other than the
root. -/
def Structures.addEntry (profile : Profile) (beginnings : OrderedMap String String)
    (structures : Structures) (entry : Element) : Except InputError Structures :=
  match EntryKind.ofTag? entry.tag with
  | some .bitField => do
    let bitField ← BitField.ofElement profile beginnings entry
    .ok { structures with bitFields := structures.bitFields.insert bitField.name bitField }
  | some .compound => do
    let (compound, findings) ← Compound.ofElement profile entry
    .ok { structures with
      compounds := structures.compounds.insert compound.name compound
      diagnostics := structures.diagnostics ++ findings }
  | some .object =>
    if entry.get? "name" = some profile.rootObject then .ok structures
    else do
      let (object, findings) ← NiObject.ofElement profile entry
      .ok { structures with
        objects := structures.objects.insert object.name object
        diagnostics := structures.diagnostics ++ findings }
  | _ => .ok structures

/-- Every structure of a schema that belongs to a profile. -/
structure Model extends Variants, Structures where
  /-- The version of the schema. -/
  version : Option String
  /-- How the objects inherit from one another. -/
  hierarchy : Hierarchy

namespace Model

/-- The parents that the objects declare. -/
def parentLinks (objects : OrderedMap String NiObject) : ParentLinks :=
  objects.mapValues NiObject.parent

/-- The structures of some entries, all of which are generated. -/
def readEntries (profile : Profile) (entries : List Element) :
    Except InputError (Variants × Structures) := do
  let variants ← entries.foldlM (Variants.addEntry profile) {}
  let structures ← entries.foldlM (Structures.addEntry profile variants.beginnings) {}
  .ok (variants, structures)

/-- The model of a document. -/
def ofDocument (profile : Profile) (document : Document) : Except ModelError Model := do
  let read := do
    let entries ← filterEmitted profile.emitsEntry document.entries
    readEntries profile entries
  let (variants, structures) ← read.mapError .input
  let links := parentLinks structures.objects
  let hierarchy ← (Hierarchy.resolve links).mapError .cycle
  .ok {
    variants, structures with
    diagnostics := structures.diagnostics ++ links.unresolved
    version := document.version
    hierarchy := hierarchy }

/-- The model of a schema text. -/
def parse (profile : Profile) (text : String) : Except ModelError Model := do
  let document ← (Document.parse text).mapError .input
  ofDocument profile document

end Model

end NifBindings
