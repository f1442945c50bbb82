import NifBindings.Source.FieldDeclaration

/-!
# Sources of compounds

Every compound that is not written by hand becomes a structure whose reader takes the version, and
an argument in front of it where one is needed.
-/

namespace NifBindings

/-- The declaration of a compound. -/
structure CompoundDeclaration where
  name : String
  doc : List String
  /-- Whether it takes a type argument. -/
  generic : Bool
  /-- Whether its reader takes an argument. -/
  takesArgument : Bool
  fields : List FieldDeclaration
deriving DecidableEq, Repr

namespace CompoundDeclaration

/-- The line that imports the parameters of the reader. -/
def importLine (takesArgument : Bool) : String :=
  if takesArgument then "#[br(import(arg: usize, _header_version: FileVersion))]"
  else "#[br(import(_header_version: FileVersion))]"

/-- The line that begins the structure. -/
def headLine (compound : CompoundDeclaration) : String :=
  if compound.generic then
    "pub struct " ++ compound.name ++ "<T: for<'a> BinRead<Args<'a> = ()> + 'static> \x7b"
  else "pub struct " ++ compound.name ++ " \x7b"

/-- The source of a compound. -/
def lines (compound : CompoundDeclaration) : List String :=
  docComment "" compound.doc ++
  ["#[binread]",
    "#[derive(Clone, Debug, PartialEq)]",
    importLine compound.takesArgument,
    compound.headLine] ++
  compound.fields.flatMap FieldDeclaration.lines ++
  ["\x7d",
    ""]

end CompoundDeclaration

namespace Compound

/-- What the source of all compounds begins with. Compounds written by hand come from a module of
their own. -/
def preamble (profile : Profile) : List String :=
  ["use binrw::\x7bBinRead, binread\x7d;",
    "",
    "use crate::\x7bbasic::*, bitfields::*, bitflags::*, enums::*, objects::*\x7d;",
    ""] ++
  if profile.manualCompounds.isEmpty then []
  else
    ["mod manual;",
      "pub use self::manual::*;",
      ""]

/-- The declaration of a compound. -/
def declaration (profile : Profile) (model : Model) (compound : Compound) :
    Except InputError CompoundDeclaration := do
  let fields ← compound.fields.declarations profile model
  .ok {
    name := compound.name
    doc := compound.doc
    generic := compound.generic
    takesArgument := NifBindings.takesArgument profile model compound.name
    fields := fields }

/-- The declarations of all compounds of a model that are not written by hand. -/
def declarations (profile : Profile) (model : Model) :
    Except InputError (List CompoundDeclaration) :=
  (model.compounds.values.filter (!profile.isManual ·.name)).mapM (declaration profile model)

/-- The source of all compounds of a model. -/
def source (profile : Profile) (model : Model) : Except InputError (List String) := do
  let compounds ← declarations profile model
  .ok (preamble profile ++ compounds.flatMap CompoundDeclaration.lines)

end Compound

end NifBindings
