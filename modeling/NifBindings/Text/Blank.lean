/-!
# Blank characters and trimming

The blank characters are those with the property White_Space. Trimming removes them at both ends of
a text, and documentation is split at line feeds into trimmed lines.
-/

namespace NifBindings.Text

/-- The characters with the property White_Space. -/
def isBlank (c : Char) : Bool :=
  (0x9 ≤ c.toNat && c.toNat ≤ 0xD) || c.toNat == 0x20 || c.toNat == 0x85 || c.toNat == 0xA0 ||
    c.toNat == 0x1680 || (0x2000 ≤ c.toNat && c.toNat ≤ 0x200A) || c.toNat == 0x2028 ||
    c.toNat == 0x2029 || c.toNat == 0x202F || c.toNat == 0x205F || c.toNat == 0x3000

/-- Drops the blank characters at the end of a text. -/
def trimRight (text : List Char) : List Char :=
  (text.reverse.dropWhile isBlank).reverse

/-- Drops the blank characters at both ends of a text. -/
def trimBoth (text : List Char) : List Char :=
  trimRight (text.dropWhile isBlank)

/-- Drops the blank characters at both ends of a string. -/
def trim (text : String) : String :=
  String.ofList (trimBoth text.toList)

/-- The trimmed lines of a trimmed text; a blank text has none. -/
def docLines (text : String) : List String :=
  match trimBoth text.toList with
  | [] => []
  | trimmed => (trimmed.splitOn '\n').map fun line => String.ofList (trimBoth line)

end NifBindings.Text
