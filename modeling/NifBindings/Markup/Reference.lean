import NifBindings.Markup.Fault

/-!
# References

A reference is a name or a number between an ampersand and a semicolon. Resolving a text replaces
every reference by the character it stands for, and fails at the first one that stands for none.
-/

namespace NifBindings.Markup

/-- The number of bytes that a text takes. -/
def byteLength : List Char → Nat
  | [] => 0
  | c :: rest => c.utf8Size + byteLength rest

/-- The character of a named reference. -/
def namedCharacter? (name : List Char) : Option Char :=
  match String.ofList name with
  | "lt" => some '<'
  | "gt" => some '>'
  | "amp" => some '&'
  | "apos" => some '\''
  | "quot" => some '"'
  | _ => none

/-- Reads the number of a character reference, which has no sign. -/
def readCode (base : Nat) (digits : List Char) : Except CharacterFault Nat :=
  match digits with
  | '+' :: _ | '-' :: _ => .error .sign
  | _ => (Text.readDigits base Text.maxNat32 digits).mapError .number

/-- The character of a code point that is neither zero nor a surrogate. -/
def characterOf (code : Nat) : Except CharacterFault Char :=
  if code = 0 then .error .zero
  else if code.isValidChar then .ok (Char.ofNat code)
  else .error (.notCharacter code)

/-- The character of a numeric reference, hexadecimal after a small x and decimal otherwise. -/
def numberedCharacter (number : List Char) : Except CharacterFault Char :=
  match number with
  | 'x' :: digits => readCode 16 digits >>= characterOf
  | digits => readCode 10 digits >>= characterOf

/-- The character of the reference whose name begins at the byte `first`. -/
def referenceCharacter (first : Nat) (name : List Char) : Except ReferenceFault Char :=
  match name with
  | '#' :: number => (numberedCharacter number).mapError .character
  | _ =>
    match namedCharacter? name with
    | some c => .ok c
    | none =>
      .error (.unknownEntity first (first + byteLength name) (String.ofList name))

/-- Whether a character can stand inside a reference. -/
def isReferenceChar (c : Char) : Bool :=
  c != ';' && c != '&'

/-- Replaces the references of a text that begins at the byte `offset`. -/
def resolveFrom (offset : Nat) : List Char → Except ReferenceFault (List Char)
  | [] => .ok []
  | c :: rest =>
    if c = '&' then
      let name := rest.takeWhile isReferenceChar
      match _hafter : rest.dropWhile isReferenceChar with
      | ';' :: after => do
        let character ← referenceCharacter (offset + 1) name
        let resolved ← resolveFrom (offset + 1 + byteLength name + 1) after
        .ok (character :: resolved)
      | _ => .error (.unterminated offset (offset + 1 + byteLength rest))
    else do
      let resolved ← resolveFrom (offset + c.utf8Size) rest
      .ok (c :: resolved)
termination_by text => text.length
decreasing_by
  · have hle := (List.dropWhile_suffix isReferenceChar (l := rest)).length_le
    rw [_hafter] at hle
    simp only [List.length_cons] at hle ⊢
    omega
  · simp

/-- Replaces the references of a text. -/
def resolve (text : List Char) : Except ReferenceFault (List Char) :=
  resolveFrom 0 text

end NifBindings.Markup
