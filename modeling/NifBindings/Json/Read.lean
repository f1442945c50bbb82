import NifBindings.Json.Value

/-!
# Reading JSON

A text is read as one value with blanks around it. Every step takes at least one character away, so
that twice the length of the text bounds the number of steps in a row.
-/

namespace NifBindings.JsonValue

/-- Drops the blanks of JSON: space, tabulator, line feed and carriage return. -/
def skipBlanks (text : List Char) : List Char :=
  text.dropWhile fun c => c == ' ' || c == '\t' || c == '\n' || c == '\r'

/-- The value of a hexadecimal digit in either case. -/
def hexDigit? (c : Char) : Option Nat :=
  if '0' ≤ c ∧ c ≤ '9' then some (c.toNat - '0'.toNat)
  else if 'a' ≤ c ∧ c ≤ 'f' then some (c.toNat - 'a'.toNat + 10)
  else if 'A' ≤ c ∧ c ≤ 'F' then some (c.toNat - 'A'.toNat + 10)
  else none

/-- The number that four hexadecimal digits write. -/
def hexUnit? (a b c d : Char) : Option Nat := do
  some (16 * (16 * (16 * (← hexDigit? a) + (← hexDigit? b)) + (← hexDigit? c)) + (← hexDigit? d))

/-- The character that a short escape stands for. -/
def shortEscape? (c : Char) : Option Char :=
  match c with
  | '"' => some '"'
  | '\\' => some '\\'
  | '/' => some '/'
  | 'b' => some '\x08'
  | 'f' => some '\x0c'
  | 'n' => some '\n'
  | 'r' => some '\r'
  | 't' => some '\t'
  | _ => none

/-- The code points of a string behind its opening quote, and the rest behind its closing quote. An
escape may give a surrogate. -/
def readCodes : List Char → Option (List Nat × List Char)
  | [] => none
  | '"' :: rest => some ([], rest)
  | '\\' :: 'u' :: a :: b :: c :: d :: rest => do
    let code ← hexUnit? a b c d
    let (codes, behind) ← readCodes rest
    some (code :: codes, behind)
  | '\\' :: c :: rest => do
    let escaped ← shortEscape? c
    let (codes, behind) ← readCodes rest
    some (escaped.toNat :: codes, behind)
  | c :: rest =>
    if c.toNat < 0x20 then none
    else do
      let (codes, behind) ← readCodes rest
      some (c.toNat :: codes, behind)

/-- Whether a code point is the first half of a pair of surrogates. -/
def isHighSurrogate (code : Nat) : Bool :=
  0xD800 ≤ code && code ≤ 0xDBFF

/-- Whether a code point is the second half of a pair of surrogates. -/
def isLowSurrogate (code : Nat) : Bool :=
  0xDC00 ≤ code && code ≤ 0xDFFF

/-- The text of some code points, in which surrogates must stand in pairs. -/
def textOfCodes? : List Nat → Option (List Char)
  | [] => some []
  | high :: low :: rest =>
    if isHighSurrogate high then
      if isLowSurrogate low then
        (textOfCodes? rest).map
          (Char.ofNat (0x10000 + 0x400 * (high - 0xD800) + (low - 0xDC00)) :: ·)
      else none
    else if isLowSurrogate high then none
    else (textOfCodes? (low :: rest)).map (Char.ofNat high :: ·)
  | [code] =>
    if isHighSurrogate code || isLowSurrogate code then none else some [Char.ofNat code]

/-- The text of a string behind its opening quote, if it has one, and the rest behind it. -/
def readString (text : List Char) : Option (Option String × List Char) := do
  let (codes, rest) ← readCodes text
  some ((textOfCodes? codes).map String.ofList, rest)

/-- At least one digit, and the rest behind all of them. -/
def readDigits (text : List Char) : Option (List Char × List Char) :=
  if (text.takeWhile Char.isDigit).isEmpty then none
  else some (text.takeWhile Char.isDigit, text.dropWhile Char.isDigit)

/-- The whole part of a number, which has no needless zero in front. -/
def readWhole (text : List Char) : Option (List Char × List Char) :=
  match text with
  | '0' :: rest => some (['0'], rest)
  | _ => readDigits text

/-- The fraction of a number, which may be missing. -/
def readFraction (text : List Char) : Option (List Char × List Char) :=
  match text with
  | '.' :: rest => do
    let (digits, behind) ← readDigits rest
    some ('.' :: digits, behind)
  | _ => some ([], text)

/-- The exponent of a number, which may be missing. -/
def readExponent (text : List Char) : Option (List Char × List Char) :=
  match text with
  | e :: rest =>
    if e = 'e' ∨ e = 'E' then
      match rest with
      | sign :: digits =>
        if sign = '+' ∨ sign = '-' then do
          let (written, behind) ← readDigits digits
          some (e :: sign :: written, behind)
        else do
          let (written, behind) ← readDigits rest
          some (e :: written, behind)
      | [] => none
    else some ([], text)
  | [] => some ([], [])

/-- A number without a sign. -/
def readMagnitude (text : List Char) : Option (List Char × List Char) := do
  let (whole, afterWhole) ← readWhole text
  let (fraction, afterFraction) ← readFraction afterWhole
  let (exponent, behind) ← readExponent afterFraction
  some (whole ++ fraction ++ exponent, behind)

/-- A number. -/
def readNumber (text : List Char) : Option (JsonValue × List Char) :=
  match text with
  | '-' :: rest => do
    let (written, behind) ← readMagnitude rest
    some (.number (String.ofList ('-' :: written)), behind)
  | _ => do
    let (written, behind) ← readMagnitude text
    some (.number (String.ofList written), behind)

/-- A word that stands for a value. -/
def readWord (text : List Char) : Option (JsonValue × List Char) :=
  match text with
  | 'n' :: 'u' :: 'l' :: 'l' :: rest => some (.null, rest)
  | 't' :: 'r' :: 'u' :: 'e' :: rest => some (.bool true, rest)
  | 'f' :: 'a' :: 'l' :: 's' :: 'e' :: rest => some (.bool false, rest)
  | _ => none

mutual

/-- Reads a value in at most `fuel` steps. -/
def readValue : Nat → List Char → Option (JsonValue × List Char)
  | 0, _ => none
  | fuel + 1, text =>
    match skipBlanks text with
    | [] => none
    | '"' :: rest => do
      let (written?, behind) ← readString rest
      some (.string written?, behind)
    | '[' :: rest =>
      match skipBlanks rest with
      | ']' :: behind => some (.list [], behind)
      | _ => do
        let (items, behind) ← readItems fuel rest
        some (.list items, behind)
    | '\x7b' :: rest =>
      match skipBlanks rest with
      | '\x7d' :: behind => some (.object [], behind)
      | _ => do
        let (members, behind) ← readMembers fuel rest
        some (.object members, behind)
    | c :: rest =>
      if c = '-' ∨ c.isDigit then readNumber (c :: rest) else readWord (c :: rest)

/-- Reads the items of a list, of which there is one at least. -/
def readItems : Nat → List Char → Option (List JsonValue × List Char)
  | 0, _ => none
  | fuel + 1, text => do
    let (item, rest) ← readValue fuel text
    match skipBlanks rest with
    | ',' :: more => do
      let (items, behind) ← readItems fuel more
      some (item :: items, behind)
    | ']' :: behind => some ([item], behind)
    | _ => none

/-- Reads the members of an object, of which there is one at least. -/
def readMembers : Nat → List Char → Option (List (Option String × JsonValue) × List Char)
  | 0, _ => none
  | fuel + 1, text =>
    match skipBlanks text with
    | '"' :: rest => do
      let (key?, afterKey) ← readString rest
      match skipBlanks afterKey with
      | ':' :: afterColon => do
        let (value, afterValue) ← readValue fuel afterColon
        match skipBlanks afterValue with
        | ',' :: more => do
          let (members, behind) ← readMembers fuel more
          some ((key?, value) :: members, behind)
        | '\x7d' :: behind => some ([(key?, value)], behind)
        | _ => none
      | _ => none
    | _ => none

end

/-- Reads a whole text as one value. -/
def parse? (text : String) : Option JsonValue :=
  let chars := text.toList
  match readValue (2 * chars.length + 2) chars with
  | some (value, rest) => if (skipBlanks rest).isEmpty then some value else none
  | none => none

end NifBindings.JsonValue
