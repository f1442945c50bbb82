import NifBindings.Expr.Operator

/-!
# Shapes of binary expressions

A binary expression puts both operands in parentheses, or the whole of it, or neither. A text is
split at the last operator outside parentheses that has one space on each side, and the shapes are
tried in this order.
-/

namespace NifBindings

/-- The depth of parentheses behind a character. A closing one without a partner counts for
nothing. -/
def depthAfter (depth : Nat) (c : Char) : Nat :=
  if c = '(' then depth + 1 else if c = ')' then depth - 1 else depth

/-- Whether every closing parenthesis has a partner before it, counting `depth` open ones, and none
stays open. -/
def balancedFrom (depth : Nat) : List Char → Bool
  | [] => depth == 0
  | c :: rest =>
    if c = ')' ∧ depth = 0 then false else balancedFrom (depthAfter depth c) rest

/-- Whether the parentheses of a text fit together. -/
def balanced (text : List Char) : Bool :=
  balancedFrom 0 text

/-- The inside of a text that is one group in parentheses. -/
def unwrapGroup? (text : List Char) : Option (List Char) :=
  match text with
  | '(' :: rest =>
    if rest.getLast? = some ')' ∧ balanced rest.dropLast then some rest.dropLast else none
  | _ => none

/-- A text cut at an operator. -/
structure Split where
  lhs : List Char
  op : Spelling
  rhs : List Char
deriving DecidableEq, Repr

/-- The operator that a text begins with, and the rest behind the space that follows it. -/
def leadingOperator? (text : List Char) : Option (Spelling × List Char) :=
  match text.dropWhile (· != ' ') with
  | [] => none
  | _ :: rest => (Spelling.ofText? (text.takeWhile (· != ' '))).map fun op => (op, rest)

/-- The cut at a space, if an operator follows it and both sides are not empty. -/
def splitAtSpace? (before rest : List Char) : Option Split :=
  match leadingOperator? rest with
  | some (op, rhs) => if before.isEmpty ∨ rhs.isEmpty then none else some ⟨before.reverse, op, rhs⟩
  | none => none

/-- The cuts of a text outside parentheses, from left to right. The characters before it are listed
last first. -/
def splitsFrom (depth : Nat) (before : List Char) : List Char → List Split
  | [] => []
  | c :: rest =>
    (if c = ' ' ∧ depth = 0 then (splitAtSpace? before rest).toList else []) ++
      splitsFrom (depthAfter depth c) (c :: before) rest

/-- The cut of a text at its last operator outside parentheses. -/
def splitBinary? (text : List Char) : Option Split :=
  (splitsFrom 0 [] text).getLast?

/-- How the parentheses of a binary expression stand. -/
inductive Shape where
  /-- Around each operand, perhaps behind unary operators. -/
  | grouped
  /-- Around the whole, perhaps behind unary operators. -/
  | parenthesized
  /-- Neither. -/
  | bare
deriving DecidableEq, Repr

/-- A unary operator. -/
inductive UnaryOperator where
  | not
  | complement
  | negate
deriving DecidableEq, Repr

/-- The character of a unary operator. -/
def UnaryOperator.char : UnaryOperator → Char
  | .not => '!'
  | .complement => '~'
  | .negate => '-'

/-- The unary operator of a character. -/
def UnaryOperator.ofChar? (c : Char) : Option UnaryOperator :=
  if c = '!' then some .not
  else if c = '~' then some .complement
  else if c = '-' then some .negate
  else none

/-- The unary operators in front of a text, and the rest behind them. -/
def takeUnary : List Char → List UnaryOperator × List Char
  | [] => ([], [])
  | c :: rest =>
    match UnaryOperator.ofChar? c with
    | some op => (op :: (takeUnary rest).1, (takeUnary rest).2)
    | none => ([], c :: rest)

/-- A binary expression taken apart. -/
structure ShapeMatch where
  shape : Shape
  unary : List UnaryOperator
  lhs : List Char
  op : Spelling
  rhs : List Char
deriving DecidableEq, Repr

/-- The operands of a text that has each in parentheses. -/
def splitGrouped? (text : List Char) : Option Split := do
  let split ← splitBinary? text
  let lhs ← unwrapGroup? split.lhs
  let rhs ← unwrapGroup? split.rhs
  some ⟨lhs, split.op, rhs⟩

/-- The operands of a text in parentheses. -/
def splitParenthesized? (text : List Char) : Option Split :=
  (unwrapGroup? text).bind splitBinary?

/-- A cut with the shape it was found in. -/
def Split.toMatch (split : Split) (shape : Shape) (unary : List UnaryOperator) : ShapeMatch :=
  ⟨shape, unary, split.lhs, split.op, split.rhs⟩

/-- The first shape that a text has. -/
def matchShape? (text : List Char) : Option ShapeMatch :=
  if balanced text then
    let (unary, rest) := takeUnary text
    match splitGrouped? rest with
    | some split => some (split.toMatch .grouped unary)
    | none =>
      match splitParenthesized? rest with
      | some split => some (split.toMatch .parenthesized unary)
      | none => (splitBinary? text).map (Split.toMatch · .bare [])
  else none

/-- A cut takes at least the two spaces from the text. -/
theorem length_of_mem_splitsFrom {depth : Nat} {before text : List Char} {split : Split}
    (h : split ∈ splitsFrom depth before text) :
    split.lhs.length + split.rhs.length < before.length + text.length := by
  induction text generalizing depth before with
  | nil => cases h
  | cons c rest ih =>
    rw [splitsFrom, List.mem_append] at h
    rcases h with h | h
    · split at h
      · rw [Option.mem_toList] at h
        unfold splitAtSpace? at h
        split at h
        next op rhs hlead =>
          unfold leadingOperator? at hlead
          split at hlead
          · cases hlead
          next d tail hdrop =>
            have hle := (List.dropWhile_suffix (· != ' ') (l := rest)).length_le
            rw [hdrop] at hle
            rw [Option.map_eq_some_iff] at hlead
            obtain ⟨op', _, hop⟩ := hlead
            cases hop
            split at h
            · cases h
            · cases h
              simp only [List.length_reverse, List.length_cons] at hle ⊢
              omega
        next => cases h
      · cases h
    · have := ih h
      simp only [List.length_cons] at this ⊢
      omega

/-- Both sides of a cut are shorter than the text. -/
theorem length_of_splitBinary? {text : List Char} {split : Split}
    (h : splitBinary? text = some split) :
    split.lhs.length < text.length ∧ split.rhs.length < text.length := by
  have := length_of_mem_splitsFrom (List.mem_of_getLast? h)
  simp only [List.length_nil, Nat.zero_add] at this
  omega

/-- The inside of a group is shorter than the text. -/
theorem length_of_unwrapGroup? {text inside : List Char} (h : unwrapGroup? text = some inside) :
    inside.length < text.length := by
  unfold unwrapGroup? at h
  split at h
  · split at h
    · cases h
      simp only [List.length_dropLast, List.length_cons]
      omega
    · cases h
  · cases h

/-- The rest behind the unary operators is no longer than the text. -/
theorem length_takeUnary_le (text : List Char) : (takeUnary text).2.length ≤ text.length := by
  induction text with
  | nil => simp [takeUnary]
  | cons c rest ih =>
    rw [takeUnary]
    split
    · simp only [List.length_cons]
      omega
    · simp

/-- Both operands of a text that has them in parentheses are shorter than it. -/
theorem length_of_splitGrouped? {text : List Char} {split : Split}
    (h : splitGrouped? text = some split) :
    split.lhs.length < text.length ∧ split.rhs.length < text.length := by
  unfold splitGrouped? at h
  cases hsplit : splitBinary? text with
  | none => simp [hsplit] at h
  | some inner =>
    cases hlhs : unwrapGroup? inner.lhs with
    | none => simp [hsplit, hlhs] at h
    | some lhs =>
      cases hrhs : unwrapGroup? inner.rhs with
      | none => simp [hsplit, hlhs, hrhs] at h
      | some rhs =>
        simp only [hsplit, hlhs, hrhs, Option.bind_eq_bind, Option.bind_some,
          Option.some.injEq] at h
        subst h
        have := length_of_splitBinary? hsplit
        have := length_of_unwrapGroup? hlhs
        have := length_of_unwrapGroup? hrhs
        dsimp only
        omega

/-- Both operands of a text in parentheses are shorter than it. -/
theorem length_of_splitParenthesized? {text : List Char} {split : Split}
    (h : splitParenthesized? text = some split) :
    split.lhs.length < text.length ∧ split.rhs.length < text.length := by
  unfold splitParenthesized? at h
  obtain ⟨inside, hinside, hsplit⟩ := Option.bind_eq_some_iff.mp h
  have := length_of_unwrapGroup? hinside
  have := length_of_splitBinary? hsplit
  omega

/-- Both operands of a binary expression are shorter than it. -/
theorem length_of_matchShape? {text : List Char} {found : ShapeMatch}
    (h : matchShape? text = some found) :
    found.lhs.length < text.length ∧ found.rhs.length < text.length := by
  have hle := length_takeUnary_le text
  unfold matchShape? at h
  split at h
  · dsimp only at h
    split at h
    next split hsplit =>
      cases h
      have := length_of_splitGrouped? hsplit
      simp only [Split.toMatch]
      omega
    next =>
      split at h
      next split hsplit =>
        cases h
        have := length_of_splitParenthesized? hsplit
        simp only [Split.toMatch]
        omega
      next =>
        obtain ⟨split, hsplit, rfl⟩ := Option.map_eq_some_iff.mp h
        exact length_of_splitBinary? hsplit
  · cases h

end NifBindings
