import NifBindings.Text.Number

/-!
# Faults of markup

A text that cannot be cut into tags and text is malformed, and tags that do not fit together are
ill-formed. A reference that stands for no character has faults of its own.
-/

namespace NifBindings.Markup

/-- A construct that cannot be recognized, or that the text ends in. -/
inductive LexicalFault where
  /-- An exclamation mark that begins no known construct. -/
  | unknownMarkup
  /-- A processing instruction without an end. -/
  | instructionNotClosed
  /-- An XML declaration without an end. -/
  | declarationNotClosed
  /-- A comment without an end. -/
  | commentNotClosed
  /-- A document type declaration without an end. -/
  | doctypeNotClosed
  /-- A section of character data without an end. -/
  | dataNotClosed
  /-- A tag without an end. -/
  | tagNotClosed
  /-- A tag that ends inside a value with this quote. -/
  | valueNotClosed (quote : Char)
deriving DecidableEq, Repr

/-- The wording of a lexical fault. -/
def LexicalFault.message : LexicalFault → String
  | .unknownMarkup => "unknown or missed symbol in markup"
  | .instructionNotClosed =>
    "processing instruction not closed: `?>` not found before end of input"
  | .declarationNotClosed => "XML declaration not closed: `?>` not found before end of input"
  | .commentNotClosed => "comment not closed: `-->` not found before end of input"
  | .doctypeNotClosed => "DOCTYPE not closed: `>` not found before end of input"
  | .dataNotClosed => "CDATA not closed: `]]>` not found before end of input"
  | .tagNotClosed => "tag not closed: `>` not found before end of input"
  | .valueNotClosed quote =>
    "attribute value not closed: `" ++ quote.toString ++ "` not found before end of input"

/-- Constructs that are complete but do not belong where they stand. -/
inductive FormFault where
  /-- A closing tag while no element is open. -/
  | unmatchedEnd (name : String)
  /-- A closing tag with another name than the innermost open element. -/
  | mismatchedEnd (expected found : String)
  /-- A document type declaration without a name. -/
  | missingDoctypeName
  /-- An ampersand in text that no semicolon follows in time. -/
  | referenceNotClosed
deriving DecidableEq, Repr

/-- The wording of a fault of form. -/
def FormFault.message : FormFault → String
  | .unmatchedEnd name => "close tag `</" ++ name ++ ">` does not match any open tag"
  | .mismatchedEnd expected found =>
    "expected `</" ++ expected ++ ">`, but `</" ++ found ++ ">` was found"
  | .missingDoctypeName =>
    "`<!DOCTYPE>` declaration does not contain a name of a document type"
  | .referenceNotClosed =>
    "entity or character reference not closed: `;` not found before end of input"

/-- What is wrong with a text as markup. -/
inductive Fault where
  /-- The text is malformed. -/
  | lexical (fault : LexicalFault)
  /-- The text is ill-formed. -/
  | form (fault : FormFault)
deriving DecidableEq, Repr

/-- The wording of the fault that decides, without its kind. -/
def Fault.detail : Fault → String
  | .lexical fault => fault.message
  | .form fault => fault.message

/-- The wording of a fault with its kind in front. -/
def Fault.message : Fault → String
  | .lexical fault => "syntax error: " ++ fault.message
  | .form fault => "ill-formed document: " ++ fault.message

/-- Why a numeric character reference stands for no character. -/
inductive CharacterFault where
  /-- The number has a sign. -/
  | sign
  /-- The number cannot be read. -/
  | number (fault : Text.NumberFault)
  /-- The number is no code point of a character. -/
  | notCharacter (code : Nat)
  /-- The number is zero. -/
  | zero
deriving DecidableEq, Repr

/-- The wording of a fault in a numeric character reference. -/
def CharacterFault.message : CharacterFault → String
  | .sign => "unexpected number sign"
  | .number fault => fault.message
  | .notCharacter code => "`" ++ toString code ++ "` is not a valid codepoint"
  | .zero => "0x0 character is not permitted in XML"

/-- What is wrong with a reference. Positions count bytes from the start of the text that holds
it. -/
inductive ReferenceFault where
  /-- The name between the two positions is not known. -/
  | unknownEntity (first last : Nat) (name : String)
  /-- No semicolon follows the ampersand at the first position. -/
  | unterminated (first last : Nat)
  /-- A numeric reference stands for no character. -/
  | character (fault : CharacterFault)
deriving DecidableEq, Repr

/-- Two positions as a half-open range. -/
def rangeText (first last : Nat) : String :=
  toString first ++ ".." ++ toString last

/-- The wording of a fault in a reference. -/
def ReferenceFault.message : ReferenceFault → String
  | .unknownEntity first last name =>
    "at " ++ rangeText first last ++ ": unrecognized entity `" ++ name ++ "`"
  | .unterminated first last =>
    "Error while escaping character at range " ++ rangeText first last ++
      ": Cannot find ';' after '&'"
  | .character fault => "invalid character reference: " ++ fault.message

/-- The wordings of the faults that a fault in a reference rests on, outermost first. -/
def ReferenceFault.causes : ReferenceFault → List String
  | .unknownEntity .. | .unterminated .. => []
  | .character fault =>
    fault.message ::
      match fault with
      | .number deeper => [deeper.message]
      | _ => []

end NifBindings.Markup
