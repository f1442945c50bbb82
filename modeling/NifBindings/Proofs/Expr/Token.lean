import NifBindings.Expr.Basic

/-!
# Tokens

The text of an expression in the generated sources is read as tokens: parentheses, operands, signs
in front of an operand, and operators behind one. Spaces only keep tokens apart. A name right before
a parenthesis takes arguments and is one operand with them.
-/

namespace NifBindings

/-- A token of an expression. -/
inductive Token where
  | opening
  | closing
  /-- A numeral, a name, or a name with its arguments. -/
  | operand (text : List Char)
  /-- A unary operator. -/
  | sign (op : UnaryOperator)
  | operator (op : Operator)
deriving DecidableEq, Repr

/-- The code points behind ASCII that only keep tokens apart. -/
def otherSpaces : List Nat :=
  [0x85, 0x200E, 0x200F, 0x2028, 0x2029]

/-- Whether a character can stand in a numeral or a name. -/
def isNameChar (c : Char) : Bool :=
  c.isAlphanum || c == '_' || c == '#' || (0x80 ≤ c.toNat && !otherSpaces.contains c.toNat)

/-- Whether a character can stand in the arguments of a name. -/
def isArgumentChar (c : Char) : Bool :=
  isNameChar c || [' ', ',', '!', '~'].contains c

/-- The operand that a text begins with, and the rest behind it. -/
def leadingOperand? (text : List Char) : Option (List Char × List Char) :=
  let name := text.takeWhile isNameChar
  if name.isEmpty then none
  else
    match text.dropWhile isNameChar with
    | '(' :: rest =>
      match rest.dropWhile isArgumentChar with
      | ')' :: behind => some (name ++ '(' :: (rest.takeWhile isArgumentChar ++ [')']), behind)
      | _ => none
    | rest => some (name, rest)

/-- The operators, longer spellings before shorter ones. -/
def operatorsByLength : List Operator :=
  [.and, .or, .le, .ge, .eq, .ne, .shiftRight, .shiftLeft, .add, .sub, .mul, .div, .lt, .gt,
    .bitAnd, .bitOr]

/-- The operator with the longest spelling that a text begins with, and the rest behind it. -/
def leadingSymbol? (text : List Char) : Option (Operator × List Char) :=
  (operatorsByLength.find? fun op => op.native.toList.isPrefixOf text).map fun op =>
    (op, text.drop op.native.toList.length)

/-- A numeral or a name, perhaps with arguments. -/
inductive IsOperand : List Char → Prop
  | name {name : List Char} (hne : name ≠ []) (hname : ∀ c ∈ name, isNameChar c = true) :
      IsOperand name
  | call {name arguments : List Char} (hne : name ≠ []) (hname : ∀ c ∈ name, isNameChar c = true)
      (harguments : ∀ c ∈ arguments, isArgumentChar c = true) :
      IsOperand (name ++ '(' :: (arguments ++ [')']))

/-- An operand begins with a character of a name. -/
theorem IsOperand.exists_cons {operand : List Char} (h : IsOperand operand) :
    ∃ c rest, operand = c :: rest ∧ isNameChar c = true := by
  cases h with
  | name hne hname =>
    obtain ⟨c, rest, rfl⟩ := List.exists_cons_of_ne_nil hne
    exact ⟨c, rest, rfl, hname c (by simp)⟩
  | call hne hname =>
    obtain ⟨c, rest, rfl⟩ := List.exists_cons_of_ne_nil hne
    exact ⟨c, _, rfl, hname c (by simp)⟩

/-- What a text begins with is an operand, and the rest is what is left. -/
theorem isOperand_of_leadingOperand? {text operand rest : List Char}
    (h : leadingOperand? text = some (operand, rest)) :
    IsOperand operand ∧ text = operand ++ rest := by
  unfold leadingOperand? at h
  dsimp only at h
  have htext : text.takeWhile isNameChar ++ text.dropWhile isNameChar = text :=
    List.takeWhile_append_dropWhile
  have hname : ∀ c ∈ text.takeWhile isNameChar, isNameChar c = true :=
    List.all_eq_true.mp List.all_takeWhile
  split at h
  · cases h
  next hempty =>
    have hne : text.takeWhile isNameChar ≠ [] := by simpa using hempty
    split at h
    next inside hdrop =>
      split at h
      next behind hbehind =>
        cases h
        refine ⟨.call hne hname (List.all_eq_true.mp List.all_takeWhile), ?_⟩
        have hinside : inside.takeWhile isArgumentChar ++ ')' :: rest = inside := by
          rw [← hbehind, List.takeWhile_append_dropWhile]
        simp only [List.append_assoc, List.cons_append, List.nil_append]
        rw [hinside, ← hdrop, htext]
      next => cases h
    next hdrop =>
      cases h
      exact ⟨.name hne hname, htext.symm⟩

/-- A text behind an operand that does not carry it on. -/
def EndsOperand (rest : List Char) : Prop :=
  ∀ c ∈ rest.head?, isNameChar c = false ∧ c ≠ '('

theorem endsOperand_nil : EndsOperand [] := by
  simp [EndsOperand]

theorem endsOperand_space (rest : List Char) : EndsOperand (' ' :: rest) := by
  intro c hc
  cases hc
  decide

theorem endsOperand_close (rest : List Char) : EndsOperand (')' :: rest) := by
  intro c hc
  cases hc
  decide

/-- An operand is found in front of a text that does not carry it on. -/
theorem IsOperand.leadingOperand?_append {operand rest : List Char} (h : IsOperand operand)
    (hrest : EndsOperand rest) : leadingOperand? (operand ++ rest) = some (operand, rest) := by
  unfold leadingOperand?
  cases h with
  | name hne hname =>
    have htake : rest.takeWhile isNameChar = [] ∧ rest.dropWhile isNameChar = rest := by
      cases rest with
      | nil => exact ⟨rfl, rfl⟩
      | cons c rest => simp [(hrest c (by simp)).1]
    rw [List.takeWhile_append_of_pos hname, List.dropWhile_append_of_pos hname, htake.1, htake.2,
      List.append_nil, if_neg (by simpa using hne)]
    split
    next => exact absurd rfl (hrest '(' (by simp)).2
    next => rfl
  | @call name arguments hne hname harguments =>
    have hopen : isNameChar '(' = false := by decide
    have hclose : isArgumentChar ')' = false := by decide
    rw [List.append_assoc, List.takeWhile_append_of_pos hname, List.dropWhile_append_of_pos hname,
      List.cons_append, List.append_assoc, List.takeWhile_cons_of_neg (by simp [hopen]),
      List.dropWhile_cons_of_neg (by simp [hopen]), List.append_nil, if_neg (by simpa using hne)]
    have htake : (arguments ++ ([')'] ++ rest)).takeWhile isArgumentChar = arguments := by
      rw [List.takeWhile_append_of_pos harguments]
      simp [hclose]
    have hdrop : (arguments ++ ([')'] ++ rest)).dropWhile isArgumentChar = ')' :: rest := by
      rw [List.dropWhile_append_of_pos harguments]
      simp [hclose]
    simp only [htake, hdrop]

/-- A text is an operand exactly if it is the operand that it begins with. -/
theorem isOperand_iff {text : List Char} :
    IsOperand text ↔ leadingOperand? text = some (text, []) := by
  constructor
  · intro h
    simpa using h.leadingOperand?_append endsOperand_nil
  · exact fun h => (isOperand_of_leadingOperand? h).1

instance (text : List Char) : Decidable (IsOperand text) :=
  decidable_of_iff _ isOperand_iff.symm

/-- An operand takes at least one character from the text. -/
theorem length_of_leadingOperand? {text operand rest : List Char}
    (h : leadingOperand? text = some (operand, rest)) : rest.length < text.length := by
  obtain ⟨hoperand, rfl⟩ := isOperand_of_leadingOperand? h
  obtain ⟨c, tail, rfl, _⟩ := hoperand.exists_cons
  simp only [List.length_append, List.length_cons]
  omega

/-- An operator takes at least one character from the text. -/
theorem length_of_leadingSymbol? {c : Char} {text rest : List Char} {op : Operator}
    (h : leadingSymbol? (c :: text) = some (op, rest)) : rest.length < (c :: text).length := by
  obtain ⟨found, _, heq⟩ := Option.map_eq_some_iff.mp h
  obtain ⟨rfl, rfl⟩ := Prod.mk.inj heq
  have hpos : 0 < found.native.toList.length := by cases found <;> decide
  simp only [List.length_drop, List.length_cons]
  omega

/-- The tokens of a text. Behind an operand an operator is expected, otherwise signs and an
operand. -/
def tokenize (behind : Bool) (text : List Char) : Option (List Token) :=
  match text with
  | [] => some []
  | c :: rest =>
    if c = ' ' then tokenize behind rest
    else if c = '(' then (tokenize false rest).map (.opening :: ·)
    else if c = ')' then (tokenize true rest).map (.closing :: ·)
    else if behind then
      match _hop : leadingSymbol? (c :: rest) with
      | some (op, rest) => (tokenize false rest).map (.operator op :: ·)
      | none => none
    else
      match UnaryOperator.ofChar? c with
      | some op => (tokenize false rest).map (.sign op :: ·)
      | none =>
        match _hoperand : leadingOperand? (c :: rest) with
        | some (operand, rest) => (tokenize true rest).map (.operand operand :: ·)
        | none => none
termination_by text.length
decreasing_by
  all_goals first
    | exact length_of_leadingSymbol? _hop
    | exact length_of_leadingOperand? _hoperand
    | simp

@[simp] theorem tokenize_nil (behind : Bool) : tokenize behind [] = some [] := by
  rw [tokenize]

@[simp] theorem tokenize_space (behind : Bool) (rest : List Char) :
    tokenize behind (' ' :: rest) = tokenize behind rest := by
  rw [tokenize]
  rfl

@[simp] theorem tokenize_open (behind : Bool) (rest : List Char) :
    tokenize behind ('(' :: rest) = (tokenize false rest).map (.opening :: ·) := by
  rw [tokenize]
  rfl

@[simp] theorem tokenize_close (behind : Bool) (rest : List Char) :
    tokenize behind (')' :: rest) = (tokenize true rest).map (.closing :: ·) := by
  rw [tokenize]
  rfl

/-- A sign in front of an operand. -/
theorem tokenize_sign (op : UnaryOperator) (rest : List Char) :
    tokenize false (op.char :: rest) = (tokenize false rest).map (.sign op :: ·) := by
  rw [tokenize]
  cases op <;> rfl

/-- Several signs in front of an operand. -/
theorem tokenize_signs (signs : List UnaryOperator) (rest : List Char) :
    tokenize false (signs.map UnaryOperator.char ++ rest) =
      (tokenize false rest).map (signs.map .sign ++ ·) := by
  induction signs with
  | nil => simp
  | cons sign signs ih =>
    rw [List.map_cons, List.cons_append, tokenize_sign, ih, Option.map_map]
    rfl

/-- An operator behind an operand, with a space behind it. -/
theorem tokenize_operator (op : Operator) (rest : List Char) :
    tokenize true (op.native.toList ++ ' ' :: rest) =
      (tokenize false rest).map (.operator op :: ·) := by
  have hsymbol : leadingSymbol? (op.native.toList ++ ' ' :: rest) = some (op, ' ' :: rest) := by
    cases op <;> rfl
  cases htext : op.native.toList with
  | nil => cases op <;> cases htext
  | cons c tail =>
    have hc : c ≠ ' ' ∧ c ≠ '(' ∧ c ≠ ')' := by
      cases op <;> cases htext <;> decide
    rw [htext, List.cons_append] at hsymbol
    rw [List.cons_append, tokenize, if_neg hc.1, if_neg hc.2.1, if_neg hc.2.2, if_pos rfl]
    split
    next found rest' hfound =>
      rw [hsymbol] at hfound
      cases hfound
      rw [tokenize_space]
    next hnone =>
      rw [hsymbol] at hnone
      cases hnone

/-- No character of a name is a sign, a space or a parenthesis. -/
theorem ne_of_isNameChar {c : Char} (hc : isNameChar c = true) :
    c ≠ ' ' ∧ c ≠ '(' ∧ c ≠ ')' ∧ UnaryOperator.ofChar? c = none := by
  have hne {d : Char} (hd : isNameChar d = false) : c ≠ d := by
    rintro rfl
    rw [hc] at hd
    cases hd
  refine ⟨hne (by decide), hne (by decide), hne (by decide), ?_⟩
  unfold UnaryOperator.ofChar?
  rw [if_neg (hne (by decide)), if_neg (hne (by decide)), if_neg (hne (by decide))]

/-- An operand where one is expected. -/
theorem tokenize_operand {operand rest : List Char} (h : IsOperand operand)
    (hrest : EndsOperand rest) :
    tokenize false (operand ++ rest) = (tokenize true rest).map (.operand operand :: ·) := by
  have hleading := h.leadingOperand?_append hrest
  obtain ⟨c, tail, rfl, hc⟩ := h.exists_cons
  obtain ⟨hspace, hopen, hclose, hsign⟩ := ne_of_isNameChar hc
  rw [List.cons_append] at hleading
  rw [List.cons_append, tokenize, if_neg hspace, if_neg hopen, if_neg hclose, if_neg (by decide),
    hsign]
  dsimp only
  split
  next found rest' hfound =>
    rw [hleading] at hfound
    cases hfound
    rfl
  next hnone =>
    rw [hleading] at hnone
    cases hnone

/-- Every operand among the tokens of a text is one. -/
theorem isOperand_of_mem_tokenize {behind : Bool} {text : List Char} {tokens : List Token}
    (h : tokenize behind text = some tokens) {operand : List Char}
    (hmem : .operand operand ∈ tokens) : IsOperand operand := by
  fun_induction tokenize behind text generalizing tokens with
  | case1 =>
    cases h
    cases hmem
  | case2 behind rest ih => exact ih h hmem
  | case3 behind rest _ ih =>
    obtain ⟨others, hothers, rfl⟩ := Option.map_eq_some_iff.mp h
    exact ih hothers (by simpa using hmem)
  | case4 behind rest _ _ ih =>
    obtain ⟨others, hothers, rfl⟩ := Option.map_eq_some_iff.mp h
    exact ih hothers (by simpa using hmem)
  | case5 c _ _ _ _ op rest _ ih =>
    obtain ⟨others, hothers, rfl⟩ := Option.map_eq_some_iff.mp h
    exact ih hothers (by simpa using hmem)
  | case6 => cases h
  | case7 behind c rest _ _ _ _ op _ ih =>
    obtain ⟨others, hothers, rfl⟩ := Option.map_eq_some_iff.mp h
    exact ih hothers (by simpa using hmem)
  | case8 behind c _ _ _ _ _ _ found rest hfound ih =>
    obtain ⟨others, hothers, rfl⟩ := Option.map_eq_some_iff.mp h
    rcases List.mem_cons.mp hmem with hsame | hmem
    · cases hsame
      exact (isOperand_of_leadingOperand? hfound).1
    · exact ih hothers hmem
  | case9 => cases h

end NifBindings
