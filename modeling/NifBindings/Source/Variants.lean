import NifBindings.Source.Line
import NifBindings.Entity.Variants

/-!
# Sources of bit flags and enumerations

Bit flags keep unknown bits, so that nothing is lost in reading. An enumeration converts from its
storage, which fails for unknown values, and back.
-/

namespace NifBindings

namespace BitFlags

/-- What the source of all bit flags begins with. -/
def preamble : List String :=
  ["use binrw::\x7b",
    "    BinRead, BinResult, Endian,",
    "    io::\x7bRead, Seek\x7d,",
    "\x7d;",
    "use bitflags::bitflags;",
    ""]

/-- The declaration of one flag. -/
def flagLine (flag : String × Nat) : String :=
  "        const " ++ flag.1 ++ " = 1 << " ++ toString flag.2 ++ ";"

/-- The source of a set of flags. -/
def lines (flags : BitFlags) : List String :=
  ["bitflags! \x7b"] ++ docComment "    " flags.doc ++
  ["    #[derive(Clone, Copy, Debug, Default, PartialEq, Eq, Hash)]",
    "    pub struct " ++ flags.name ++ ": " ++ flags.storage ++ " \x7b"] ++
  flags.flags.entries.map flagLine ++
  ["    \x7d",
    "\x7d",
    "",
    "impl BinRead for " ++ flags.name ++ " \x7b",
    "    type Args<'a> = ();",
    "",
    "    fn read_options<R: Read + Seek>(",
    "        reader: &mut R,",
    "        endian: Endian,",
    "        _args: Self::Args<'_>,",
    "    ) -> BinResult<Self> \x7b",
    "        " ++ flags.storage ++
      "::read_options(reader, endian, ()).map(Self::from_bits_retain)",
    "    \x7d",
    "\x7d",
    ""]

/-- The source of all sets of flags. -/
def source (all : List BitFlags) : List String :=
  preamble ++ all.flatMap lines

end BitFlags

namespace Enumeration

/-- What the source of all enumerations begins with. -/
def preamble : List String :=
  ["use binrw::BinRead;", ""]

/-- The declaration of one option. -/
def optionLine (option : String × Int) : String :=
  "    " ++ option.1 ++ " = " ++ toString option.2 ++ ","

/-- The conversion of a stored value to one option. -/
def conversionLine (storage name : String) : String :=
  "            v if v == Self::" ++ name ++ " as " ++ storage ++ " => Ok(Self::" ++ name ++ "),"

/-- The source of an enumeration. -/
def lines (enumeration : Enumeration) : List String :=
  docComment "" enumeration.doc ++
  ["#[derive(Clone, Copy, Debug, PartialEq, Eq, Hash, BinRead)]",
    "#[br(repr = " ++ enumeration.storage ++ ")]",
    "#[repr(" ++ enumeration.storage ++ ")]",
    "pub enum " ++ enumeration.name ++ " \x7b"] ++
  enumeration.options.entries.map optionLine ++
  ["\x7d",
    "",
    "impl TryFrom<" ++ enumeration.storage ++ "> for " ++ enumeration.name ++ " \x7b",
    "    type Error = " ++ enumeration.storage ++ ";",
    "",
    "    fn try_from(value: " ++ enumeration.storage ++ ") -> Result<Self, Self::Error> \x7b",
    "        match value \x7b"] ++
  enumeration.options.keys.map (conversionLine enumeration.storage) ++
  ["            other => Err(other),",
    "        \x7d",
    "    \x7d",
    "\x7d",
    "",
    "impl From<" ++ enumeration.name ++ "> for " ++ enumeration.storage ++ " \x7b",
    "    fn from(value: " ++ enumeration.name ++ ") -> Self \x7b",
    "        value as Self",
    "    \x7d",
    "\x7d",
    ""]

/-- The source of all enumerations. -/
def source (all : List Enumeration) : List String :=
  preamble ++ all.flatMap lines

end Enumeration

end NifBindings
