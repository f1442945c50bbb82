import NifBindings.Markup.Reference
import NifBindings.Markup.Tag

/-!
# Tokens of markup

A text of markup is cut into tags, references and the text between them. Comments, declarations,
instructions and sections of character data leave no token. The tokens before the first fault are
kept with the fault.
-/

namespace NifBindings.Markup

/-- A piece of markup. -/
inductive Token where
  /-- Text without references. -/
  | text (content : List Char)
  /-- The name of a reference. -/
  | reference (name : List Char)
  /-- A tag that opens an element. -/
  | opening (tag : Tag)
  /-- A tag that is an element without content. -/
  | void (tag : Tag)
  /-- The name in a tag that closes an element. -/
  | closing (name : List Char)
deriving DecidableEq, Repr

/-- The rest of a text behind the first occurrence of a word. -/
def skipPast (word : List Char) : List Char → Option (List Char)
  | [] => none
  | c :: rest =>
    if word.isPrefixOf (c :: rest) then some ((c :: rest).drop word.length)
    else skipPast word rest

/-- The rest behind a word is no longer than the text. -/
theorem length_le_of_skipPast {word text rest : List Char} (h : skipPast word text = some rest) :
    rest.length ≤ text.length := by
  induction text with
  | nil => cases h
  | cons c tail ih =>
    rw [skipPast] at h
    split at h
    · cases h
      simp only [List.length_drop]
      omega
    · have := ih h
      simp only [List.length_cons]
      omega

/-- The inside of a tag up to the first closing bracket outside quotes, and the rest behind it. -/
def splitTag (quote? : Option Char) : List Char → Except LexicalFault (List Char × List Char)
  | [] =>
    match quote? with
    | none => .error .tagNotClosed
    | some quote => .error (.valueNotClosed quote)
  | c :: rest =>
    if quote? = none ∧ c = '>' then .ok ([], rest)
    else
      let next :=
        match quote? with
        | none => if isQuote c then some c else none
        | some quote => if c = quote then none else some quote
      (splitTag next rest).map fun (inside, behind) => (c :: inside, behind)

/-- The rest behind a tag is shorter than the text. -/
theorem length_lt_of_splitTag {quote? : Option Char} {text inside rest : List Char}
    (h : splitTag quote? text = .ok (inside, rest)) : rest.length < text.length := by
  induction text generalizing quote? inside with
  | nil => cases quote? <;> cases h
  | cons c tail ih =>
    simp only [splitTag] at h
    split at h
    · cases h
      simp
    · generalize hnext : splitTag _ tail = result at h
      cases result with
      | error fault => cases h
      | ok pair =>
        cases h
        have := ih hnext
        simp only [List.length_cons]
        omega

/-- Where reading stands inside a document type declaration. -/
inductive DoctypePart where
  /-- Before the internal subset, or without one. -/
  | outside
  /-- Inside a quoted text before the internal subset. -/
  | quoted (quote : Char)
  /-- Between the declarations of the internal subset. -/
  | subset
  /-- Inside a comment of the internal subset. -/
  | comment
  /-- Inside an instruction of the internal subset. -/
  | instruction
  /-- Inside markup of the internal subset that its first closing bracket ends. -/
  | declaration
  /-- Inside a declaration of the internal subset that may hold quoted texts, perhaps in one. -/
  | literals (quote? : Option Char)
  /-- Inside markup of the internal subset too close to the end of the text to tell its kind. -/
  | undecided
  /-- Behind the internal subset. -/
  | behind
deriving DecidableEq, Repr

/-- The keywords of the declarations that may hold a closing bracket in a quoted text. -/
def literalKeywords : List (List Char) :=
  [['!', 'E', 'N', 'T', 'I', 'T', 'Y'], ['!', 'A', 'T', 'T', 'L', 'I', 'S', 'T'],
    ['!', 'N', 'O', 'T', 'A', 'T', 'I', 'O', 'N']]

/-- Whether a text has fewer bytes than the longest keyword, so that it may be the beginning of
one. -/
def isCutOff (text : List Char) : Bool :=
  (text.take 9).foldl (fun size c => size + c.utf8Size) 0 < 9

/-- The part that begins behind an opening bracket between the declarations of the internal subset.
Only in the declarations of entities, attributes and notations do quotes hide a closing bracket. -/
def DoctypePart.ofMarkup (text : List Char) : DoctypePart :=
  if ['!', '-', '-'].isPrefixOf text then .comment
  else if ['?'].isPrefixOf text then .instruction
  else if literalKeywords.any (·.isPrefixOf text) then .literals none
  else if isCutOff text then .undecided
  else .declaration

/-- The part that follows a character inside a document type declaration, given the characters
behind it. -/
def DoctypePart.next (part : DoctypePart) (c : Char) (rest : List Char) : DoctypePart :=
  match part with
  | .outside => if isQuote c then .quoted c else if c = '[' then .subset else .outside
  | .quoted quote => if c = quote then .outside else part
  | .subset =>
    if c = ']' then .behind
    else if c = '<' then .ofMarkup rest
    else .subset
  | .comment => part
  | .instruction => part
  | .declaration => if c = '>' then .subset else part
  | .literals none => if c = '>' then .subset else if isQuote c then .literals (some c) else part
  | .literals (some quote) => if c = quote then .literals none else part
  | .undecided => part
  | .behind => part

/-- The rest behind a document type declaration that stands at `part`. -/
def skipDoctype (part : DoctypePart) (text : List Char) : Option (List Char) :=
  match text with
  | [] => none
  | c :: rest =>
    if c = '>' ∧ (part = .outside ∨ part = .behind) then some rest
    else
      match part.next c rest with
      | .comment =>
        match _hskip : skipPast ['-', '-', '>'] (rest.drop 3) with
        | some behind => skipDoctype .subset behind
        | none => none
      | .instruction =>
        match _hskip : skipPast ['?', '>'] (rest.drop 1) with
        | some behind => skipDoctype .subset behind
        | none => none
      | part' => skipDoctype part' rest
termination_by text.length
decreasing_by
  · have := length_le_of_skipPast _hskip
    simp only [List.length_drop, List.length_cons] at *
    omega
  · have := length_le_of_skipPast _hskip
    simp only [List.length_drop, List.length_cons] at *
    omega
  · simp

/-- The rest behind a document type declaration is no longer than the text. -/
theorem length_le_of_skipDoctype {part : DoctypePart} {text rest : List Char}
    (h : skipDoctype part text = some rest) : rest.length ≤ text.length := by
  fun_induction skipDoctype part text with
  | case1 => cases h
  | case2 =>
    cases h
    simp
  | case3 part c tail hend hpart behind hskip ih =>
    have := ih h
    have := length_le_of_skipPast hskip
    simp only [List.length_drop, List.length_cons] at *
    omega
  | case4 => cases h
  | case5 part c tail hend hpart behind hskip ih =>
    have := ih h
    have := length_le_of_skipPast hskip
    simp only [List.length_drop, List.length_cons] at *
    omega
  | case6 => cases h
  | case7 part c tail hend hcomment hinstruction ih =>
    have := ih h
    simp only [List.length_cons]
    omega

/-- A letter of the basic alphabet in lower case; any other character is left alone. -/
def lowerLetter (c : Char) : Char :=
  if 'A' ≤ c ∧ c ≤ 'Z' then Char.ofNat (c.toNat + 32) else c

/-- The rest behind a word that a text must begin with. -/
def afterWord (word text : List Char) : Option (List Char) :=
  if word.isPrefixOf text then some (text.drop word.length) else none

/-- The rest behind a document type declaration whose keyword was read. -/
def readDoctype (text : List Char) : Except Fault (List Char) :=
  if ['>'].isPrefixOf (text.dropWhile isMarkupBlank) then .error (.form .missingDoctypeName)
  else
    match skipDoctype .outside text with
    | some behind => .ok behind
    | none => .error (.lexical .doctypeNotClosed)

/-- The rest behind markup that begins with an exclamation mark and leaves no token. -/
def readDeclaration (text : List Char) : Except Fault (List Char) :=
  match text with
  | '-' :: rest =>
    match (afterWord ['-'] rest).bind (skipPast ['-', '-', '>']) with
    | some behind => .ok behind
    | none => .error (.lexical .commentNotClosed)
  | '[' :: rest =>
    match (afterWord ['C', 'D', 'A', 'T', 'A', '['] rest).bind (skipPast [']', ']', '>']) with
    | some behind => .ok behind
    | none => .error (.lexical .dataNotClosed)
  | c :: rest =>
    if lowerLetter c = 'd' then
      if (rest.take 6).map lowerLetter = ['o', 'c', 't', 'y', 'p', 'e'] then
        readDoctype (rest.drop 6)
      else .error (.lexical .doctypeNotClosed)
    else .error (.lexical .unknownMarkup)
  | [] => .error (.lexical .unknownMarkup)

/-- Whether the inside of an instruction is that of an XML declaration. -/
def isXmlDeclaration (text : List Char) : Bool :=
  match text with
  | 'x' :: 'm' :: 'l' :: rest =>
    match rest with
    | [] => true
    | c :: _ => isMarkupBlank c || c == '?'
  | _ => false

/-- The rest behind an instruction, whose own question mark does not close it. -/
def readInstruction (text : List Char) : Except Fault (List Char) :=
  if ['>'].isPrefixOf text then .error (.lexical .instructionNotClosed)
  else
    match skipPast ['?', '>'] text with
    | some behind => .ok behind
    | none =>
      if isXmlDeclaration text then .error (.lexical .declarationNotClosed)
      else .error (.lexical .instructionNotClosed)

/-- The token of a tag with this inside. -/
def tagToken (content : List Char) : Token :=
  match content with
  | '/' :: name => .closing (closingName name)
  | _ =>
    if content.getLast? = some '/' then .void (Tag.ofContent content.dropLast)
    else .opening (Tag.ofContent content)

/-- The token of the markup behind an opening bracket, if it leaves one, and the rest behind it. -/
def readMarkup (text : List Char) : Except Fault (Option Token × List Char) :=
  match text with
  | '!' :: rest => (readDeclaration rest).map fun behind => (none, behind)
  | '?' :: rest => (readInstruction rest).map fun behind => (none, behind)
  | _ =>
    match splitTag none text with
    | .ok (inside, behind) => .ok (some (tagToken inside), behind)
    | .error fault => .error (.lexical fault)

/-- The name of the reference behind an ampersand, and the rest behind its semicolon. -/
def readReference (text : List Char) : Except Fault (List Char × List Char) :=
  let isName := fun c => c != ';' && c != '&' && c != '<'
  match text.dropWhile isName with
  | ';' :: behind => .ok (text.takeWhile isName, behind)
  | _ => .error (.form .referenceNotClosed)

/-- The rest behind two words, of which a text begins with the first, is no longer than the text. -/
theorem length_le_of_afterWord_bind {first word text rest : List Char}
    (h : (afterWord first text).bind (skipPast word) = some rest) :
    rest.length ≤ text.length := by
  unfold afterWord at h
  split at h
  · have hskip := length_le_of_skipPast h
    simp only [List.length_drop] at hskip
    omega
  · cases h

/-- The rest behind a document type declaration is no longer than the text. -/
theorem length_le_of_readDoctype {text rest : List Char} (h : readDoctype text = .ok rest) :
    rest.length ≤ text.length := by
  unfold readDoctype at h
  split at h
  · cases h
  · split at h
    next behind hskip =>
      cases h
      exact length_le_of_skipDoctype hskip
    next => cases h

/-- The rest behind a declaration is no longer than the text. -/
theorem length_le_of_readDeclaration {text rest : List Char}
    (h : readDeclaration text = .ok rest) : rest.length ≤ text.length := by
  unfold readDeclaration at h
  split at h
  next tail =>
    split at h
    next behind hbind =>
      cases h
      have := length_le_of_afterWord_bind hbind
      simp only [List.length_cons]
      omega
    next => cases h
  next tail =>
    split at h
    next behind hbind =>
      cases h
      have := length_le_of_afterWord_bind hbind
      simp only [List.length_cons]
      omega
    next => cases h
  next c tail hdash hbracket =>
    split at h
    · split at h
      · have := length_le_of_readDoctype h
        simp only [List.length_drop, List.length_cons] at *
        omega
      · cases h
    · cases h
  next => cases h

/-- The rest behind an instruction is no longer than the text. -/
theorem length_le_of_readInstruction {text rest : List Char}
    (h : readInstruction text = .ok rest) : rest.length ≤ text.length := by
  unfold readInstruction at h
  split at h
  · cases h
  · split at h
    next behind hskip =>
      cases h
      exact length_le_of_skipPast hskip
    next => split at h <;> cases h

/-- The rest behind markup is no longer than the text. -/
theorem length_le_of_readMarkup {text rest : List Char} {token? : Option Token}
    (h : readMarkup text = .ok (token?, rest)) : rest.length ≤ text.length := by
  unfold readMarkup at h
  split at h
  next tail =>
    cases hread : readDeclaration tail with
    | error fault => rw [hread] at h; cases h
    | ok behind =>
      rw [hread] at h
      cases h
      have := length_le_of_readDeclaration hread
      simp only [List.length_cons]
      omega
  next tail =>
    cases hread : readInstruction tail with
    | error fault => rw [hread] at h; cases h
    | ok behind =>
      rw [hread] at h
      cases h
      have := length_le_of_readInstruction hread
      simp only [List.length_cons]
      omega
  next =>
    split at h
    next inside behind hsplit =>
      cases h
      have := length_lt_of_splitTag hsplit
      omega
    next => cases h

/-- The rest behind a reference is shorter than the text. -/
theorem length_lt_of_readReference {text name rest : List Char}
    (h : readReference text = .ok (name, rest)) : rest.length < text.length := by
  unfold readReference at h
  dsimp only at h
  split at h
  next behind hdrop =>
    cases h
    exact length_lt_of_dropWhile_eq_cons hdrop
  next => cases h

/-- Whether a character is plain text, which neither a tag nor a reference begins with. -/
def isPlain (c : Char) : Bool :=
  c != '<' && c != '&'

/-- The tokens of a text up to its first fault, and that fault. -/
def scan (text : List Char) : List Token × Option Fault :=
  match text with
  | [] => ([], none)
  | c :: rest =>
    if c = '<' then
      match _hread : readMarkup rest with
      | .error fault => ([], some fault)
      | .ok (token?, behind) =>
        let (tokens, fault?) := scan behind
        (token?.toList ++ tokens, fault?)
    else if c = '&' then
      match _hread : readReference rest with
      | .error fault => ([], some fault)
      | .ok (name, behind) =>
        let (tokens, fault?) := scan behind
        (.reference name :: tokens, fault?)
    else
      let (tokens, fault?) := scan (rest.dropWhile isPlain)
      (.text (c :: rest.takeWhile isPlain) :: tokens, fault?)
termination_by text.length
decreasing_by
  · have := length_le_of_readMarkup _hread
    simp only [List.length_cons]
    omega
  · have := length_lt_of_readReference _hread
    simp only [List.length_cons]
    omega
  · have := length_dropWhile_le isPlain rest
    simp only [List.length_cons]
    omega

/-- The byte order mark, which a text may begin with. -/
def byteOrderMark : Char :=
  '\ufeff'

/-- The tokens of a whole text, whose byte order mark is no part of it. -/
def scanText (text : List Char) : List Token × Option Fault :=
  match text with
  | [] => scan []
  | c :: rest => if c = byteOrderMark then scan rest else scan (c :: rest)

end NifBindings.Markup
