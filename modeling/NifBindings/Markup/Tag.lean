/-!
# Tags

The inside of a tag is a name, which ends at the first blank, and assignments of quoted values to
keys. An assignment that is broken is left out, and reading goes on behind it where that is
possible.
-/

namespace NifBindings.Markup

/-- The blanks of markup: space, tabulator, carriage return and line feed. -/
def isMarkupBlank (c : Char) : Bool :=
  c == ' ' || c == '\t' || c == '\r' || c == '\n'

/-- The two characters that can enclose a value. -/
def isQuote (c : Char) : Bool :=
  c == '"' || c == '\''

/-- Whether a character can stand in a key behind its first character. -/
def isKeyChar (c : Char) : Bool :=
  c != '=' && !isMarkupBlank c

/-- A name with the assignments of its tag, the values as written. -/
structure Tag where
  name : List Char
  assignments : List (List Char × List Char)
deriving DecidableEq, Repr

/-- Dropping characters from the front makes a text no longer. -/
theorem length_dropWhile_le (p : Char → Bool) (text : List Char) :
    (text.dropWhile p).length ≤ text.length :=
  (List.dropWhile_suffix p).length_le

/-- The rest behind a dropped front is shorter than the text by its first character at least. -/
theorem length_lt_of_dropWhile_eq_cons {p : Char → Bool} {text rest : List Char} {c : Char}
    (h : text.dropWhile p = c :: rest) : rest.length < text.length := by
  have hle := length_dropWhile_le p text
  rw [h, List.length_cons] at hle
  omega

/-- The assignments of a tag whose keys `seen` had an equals sign before. A key without one is left
out, and so is one without a quoted value. Behind a repeated key reading goes on at the blank that
comes next. -/
def readAssignments (seen : List (List Char)) (text : List Char) :
    List (List Char × List Char) :=
  match _hkey : text.dropWhile isMarkupBlank with
  | [] => []
  | c :: afterStart =>
    let key := c :: afterStart.takeWhile isKeyChar
    match _hequals : (afterStart.dropWhile isKeyChar).dropWhile isMarkupBlank with
    | [] => []
    | d :: afterEquals =>
      if d ≠ '=' then readAssignments seen (d :: afterEquals)
      else if key ∈ seen then readAssignments seen (afterEquals.dropWhile (!isMarkupBlank ·))
      else
        match _hvalue : afterEquals.dropWhile isMarkupBlank with
        | [] => []
        | quote :: body =>
          if isQuote quote then
            match _hclose : body.dropWhile (· != quote) with
            | [] => []
            | _ :: next =>
              (key, body.takeWhile (· != quote)) :: readAssignments (key :: seen) next
          else readAssignments (key :: seen) (body.dropWhile (!isMarkupBlank ·))
termination_by text.length
decreasing_by
  all_goals
    have := length_lt_of_dropWhile_eq_cons _hkey
    have := length_dropWhile_le isKeyChar afterStart
    have := length_dropWhile_le isMarkupBlank (afterStart.dropWhile isKeyChar)
    have := length_lt_of_dropWhile_eq_cons _hequals
  · simp only [List.length_cons]
    omega
  · have := length_dropWhile_le (!isMarkupBlank ·) afterEquals
    omega
  · have := length_lt_of_dropWhile_eq_cons _hvalue
    have := length_lt_of_dropWhile_eq_cons _hclose
    omega
  · have := length_lt_of_dropWhile_eq_cons _hvalue
    have := length_dropWhile_le (!isMarkupBlank ·) body
    omega

/-- The tag with this inside. -/
def Tag.ofContent (content : List Char) : Tag :=
  ⟨content.takeWhile (!isMarkupBlank ·),
    readAssignments [] (content.dropWhile (!isMarkupBlank ·))⟩

/-- The name in a closing tag is its inside without blanks at the end; blanks alone are kept. -/
def closingName (content : List Char) : List Char :=
  match content.reverse.dropWhile isMarkupBlank with
  | [] => content
  | trimmed => trimmed.reverse

end NifBindings.Markup
