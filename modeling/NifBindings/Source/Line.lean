/-!
# Lines of a source

A source is a list of lines, each of which ends with a line feed. Documentation stands in comments
of its own.
-/

namespace NifBindings

/-- The text of some lines. -/
def joinLines (lines : List String) : String :=
  String.join (lines.map (· ++ "\n"))

/-- The comment of a line of documentation. An empty line has no space behind the slashes. -/
def docLine (indent line : String) : String :=
  if line.isEmpty then indent ++ "///" else indent ++ "/// " ++ line

/-- The comments of some documentation. -/
def docComment (indent : String) (doc : List String) : List String :=
  doc.map (docLine indent)

/-- A text in quotes. -/
def quoted (text : String) : String :=
  "\"" ++ text ++ "\""

end NifBindings
