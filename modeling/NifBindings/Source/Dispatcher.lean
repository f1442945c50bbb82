import NifBindings.Source.Line
import NifBindings.Model

/-!
# The dispatcher

The root object becomes an enumeration of all blocks. Its reader chooses a variant by the name of a
block, and a block knows its name and everything that it inherits from.
-/

namespace NifBindings

/-- A variant of the dispatcher, which stands for one kind of block. -/
structure BlockVariant where
  /-- The name of the object, which is that of the variant and of the block too. -/
  name : String
  /-- The object, its ancestors from the nearest on, and the root. -/
  lineage : List String
deriving DecidableEq, Repr

/-- The enumeration of all blocks. -/
structure Dispatcher where
  root : String
  variants : List BlockVariant
deriving DecidableEq, Repr

/-- The objects that blocks can be, in order. -/
def Model.concreteObjects (model : Model) : List NiObject :=
  model.objects.values.filter (!·.isAbstract)

/-- The variant of an object. -/
def NiObject.blockVariant (root : String) (hierarchy : Hierarchy) (object : NiObject) :
    BlockVariant :=
  ⟨object.name, object.name :: hierarchy.ancestors object.name ++ [root]⟩

namespace Dispatcher

/-- The dispatcher of a model. -/
def ofModel (profile : Profile) (model : Model) : Dispatcher :=
  ⟨profile.rootObject,
    model.concreteObjects.map (NiObject.blockVariant profile.rootObject model.hierarchy)⟩

/-- The declaration of a variant. -/
def variantLine (variant : BlockVariant) : String :=
  "    " ++ variant.name ++ "(" ++ variant.name ++ "),"

/-- The arm of the reader for a variant. -/
def readerLine (variant : BlockVariant) : String :=
  "            b" ++ quoted variant.name ++ " => " ++ variant.name ++
    "::read_options(reader, endian, (version,)).map(Self::" ++ variant.name ++ "),"

/-- The arm that names a variant. -/
def nameLine (variant : BlockVariant) : String :=
  "            Self::" ++ variant.name ++ "(_) => " ++ quoted variant.name ++ ","

/-- The arm with everything that a variant inherits from. -/
def lineageLine (variant : BlockVariant) : String :=
  "            Self::" ++ variant.name ++ "(_) => matches!(ancestor, " ++
    " | ".intercalate (variant.lineage.map quoted) ++ "),"

/-- The source of a dispatcher. -/
def lines (dispatcher : Dispatcher) : List String :=
  ["/// Any block that can appear in a file's block list.",
    "#[derive(Clone, Debug, PartialEq)]",
    "pub enum " ++ dispatcher.root ++ " \x7b"] ++
  dispatcher.variants.map variantLine ++
  ["\x7d",
    "",
    "impl BinRead for " ++ dispatcher.root ++ " \x7b",
    "    /// Block type name from the header, and the file version.",
    "    type Args<'a> = (&'a [u8], FileVersion);",
    "",
    "    fn read_options<R: Read + Seek>(",
    "        reader: &mut R,",
    "        endian: Endian,",
    "        (name, version): Self::Args<'_>,",
    "    ) -> BinResult<Self> \x7b",
    "        let pos = reader.stream_position()?;",
    "        match name \x7b"] ++
  dispatcher.variants.map readerLine ++
  ["            _ => Err(Error::Custom \x7b",
    "                pos,",
    "                err: Box::new(format!(\"unsupported block type \x7b\x7d\", " ++
      "String::from_utf8_lossy(name))),",
    "            \x7d),",
    "        \x7d",
    "    \x7d",
    "\x7d",
    "",
    "impl " ++ dispatcher.root ++ " \x7b",
    "    /// Name of the block type as written in the file header.",
    "    #[must_use]",
    "    pub fn type_name(&self) -> &'static str \x7b",
    "        match self \x7b"] ++
  dispatcher.variants.map nameLine ++
  ["        \x7d",
    "    \x7d",
    "",
    "    /// Returns true if this block is `ancestor` or derives from it.",
    "    #[must_use]",
    "    pub fn inherits_from(&self, ancestor: &str) -> bool \x7b",
    "        match self \x7b"] ++
  dispatcher.variants.map lineageLine ++
  ["        \x7d",
    "    \x7d",
    "\x7d",
    ""]

end Dispatcher

end NifBindings
