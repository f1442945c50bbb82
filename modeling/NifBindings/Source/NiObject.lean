import NifBindings.Source.FieldDeclaration
import NifBindings.Source.Dispatcher

/-!
# Sources of objects

Every object becomes a structure that holds its parent in front of its own fields. The dispatcher
stands before them.
-/

namespace NifBindings

/-- The declaration of an object. -/
structure ObjectDeclaration where
  name : String
  doc : List String
  /-- The object that is held in front of the fields. -/
  base? : Option String
  fields : List FieldDeclaration
deriving DecidableEq, Repr

namespace ObjectDeclaration

/-- The lines that hold the parent. -/
def baseLines (parent : String) : List String :=
  ["    #[br(args(_header_version,))]",
    "    pub base: " ++ parent ++ ","]

/-- The source of an object. -/
def lines (object : ObjectDeclaration) : List String :=
  docComment "" object.doc ++
  ["#[binread]",
    "#[derive(Clone, Debug, PartialEq)]",
    "#[br(import(_header_version: FileVersion))]",
    "pub struct " ++ object.name ++ " \x7b"] ++
  (object.base?.map baseLines).getD [] ++
  object.fields.flatMap FieldDeclaration.lines ++
  ["\x7d",
    ""]

end ObjectDeclaration

namespace NiObject

/-- What the source of all objects begins with. -/
def preamble : List String :=
  ["use binrw::\x7b",
    "    BinRead, BinResult, Endian, Error, binread,",
    "    io::\x7bRead, Seek\x7d,",
    "\x7d;",
    "",
    "use crate::\x7bbasic::*, bitfields::*, bitflags::*, compounds::*, enums::*\x7d;",
    ""]

/-- The declaration of an object. -/
def declaration (profile : Profile) (model : Model) (object : NiObject) :
    Except InputError ObjectDeclaration := do
  let fields ← object.fields.declarations profile model
  .ok ⟨object.name, object.doc, model.hierarchy.parent? object.name, fields⟩

/-- The declarations of all objects of a model. -/
def declarations (profile : Profile) (model : Model) :
    Except InputError (List ObjectDeclaration) :=
  model.objects.values.mapM (declaration profile model)

/-- The source of the dispatcher and of all objects of a model. -/
def source (profile : Profile) (model : Model) : Except InputError (List String) := do
  let objects ← declarations profile model
  .ok (preamble ++ (Dispatcher.ofModel profile model).lines ++
    objects.flatMap ObjectDeclaration.lines)

end NiObject

end NifBindings
