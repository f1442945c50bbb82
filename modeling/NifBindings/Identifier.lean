import NifBindings.Text.Blank
import NifBindings.Text.Case

/-!
# Names of the generated sources

The schema writes names with spaces and colons and types in words of its own. Here are the names
that stand for them in the generated sources.
-/

namespace NifBindings

/-- The basic types of the schema with the types that stand for them. -/
def basicTypes : List (String × String) :=
  [("uint64", "u64"), ("int64", "i64"), ("ulittle32", "u32"), ("uint", "u32"), ("int", "i32"),
    ("ushort", "u16"), ("short", "i16"), ("char", "i8"), ("byte", "u8"), ("bool", "bool"),
    ("float", "f32"), ("hfloat", "f16"), ("string", "NiString"), ("#T#", "T")]

/-- The words that are no identifiers on their own. -/
def reservedWords : List String :=
  ["as", "break", "const", "continue", "crate", "else", "enum", "extern", "false", "fn", "for",
    "if", "impl", "in", "let", "loop", "match", "mod", "move", "mut", "pub", "ref", "return",
    "self", "Self", "static", "struct", "super", "trait", "true", "type", "unsafe", "use",
    "where", "while", "async", "await", "dyn", "abstract", "become", "box", "do", "final",
    "macro", "override", "priv", "typeof", "unsized", "virtual", "yield", "try"]

/-- The name of a structure begins with a capital. -/
def structureName (name : String) : String :=
  Text.capitalize name

/-- The name of a type is that of its basic type, or that of a structure. -/
def typeName (name : String) : String :=
  match basicTypes.find? (·.1 == name) with
  | some basic => basic.2
  | none => structureName name

/-- The name of an option or flag has no spaces and colons. -/
def variantName (name : String) : String :=
  String.ofList (name.toList.filter fun c => c != ' ' && c != ':')

/-- The characters of a field name: lower case, underscores for spaces, and no colons. -/
def fieldChars (name : List Char) : List Char :=
  ((Text.lowerChars name).map fun c => if c = ' ' then '_' else c).filter (· != ':')

/-- An identifier that may be a reserved word, which is written raw. -/
def escapeReserved (name : String) : String :=
  if name ∈ reservedWords then "r#" ++ name else name

/-- What a name can refer to where a value is expected. -/
inductive Reference where
  /-- The argument of the reader. -/
  | argument
  /-- A version value with these components. -/
  | version (components : List String)
  /-- A field, given by its identifier. -/
  | field (identifier : String)
deriving DecidableEq, Repr

namespace Reference

/-- What a name refers to. A name with a point is a version. -/
def ofName (name : String) : Reference :=
  if name = "#ARG#" then .argument
  else if '.' ∈ name.toList then .version ((name.toList.splitOn '.').map String.ofList)
  else .field (escapeReserved (String.ofList (fieldChars name.toList)))

/-- The text of a reference in the generated sources. -/
def render : Reference → String
  | .argument => "arg"
  | .version components => "FileVersion(" ++ ", ".intercalate components ++ ")"
  | .field identifier => identifier

end Reference

/-- The name of a field, or of a value inside an expression. -/
def fieldName (name : String) : String :=
  (Reference.ofName name).render

end NifBindings
