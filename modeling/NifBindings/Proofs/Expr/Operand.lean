import NifBindings.Proofs.Expr.Joined

/-!
# Operands in the generated text

Whether an operand stands in parentheses is decided by its expression. The generated text tells the
same: an operand is put in parentheses exactly if there is a space in its text and the text does not
begin with a version value. Hence the text of two joined conditions is made of their two texts.
-/

namespace NifBindings

/-- A text as an operand: in parentheses if there is a space in it, unless it begins with a version
value. -/
def wrapped (text : String) : String :=
  if Text.holds text " " && !Text.beginsWith text "FileVersion" then "(" ++ text ++ ")" else text

/-- A string holds a space exactly if that is one of its characters. -/
theorem Text.holds_space_iff {text : String} : Text.holds text " " = true ↔ ' ' ∈ text.toList := by
  have hspace : " ".toList = [' '] := rfl
  rw [Text.holds, Text.occursIn_iff, hspace, List.mem_iff_append]
  simp

/-- A word without some character begins a text exactly if it begins the part before that
character. -/
theorem isPrefixOf_append_cons {word a b : List Char} {c : Char} (hc : c ∉ word) :
    word.isPrefixOf (a ++ c :: b) = word.isPrefixOf a := by
  rw [Bool.eq_iff_iff, List.isPrefixOf_iff_prefix, List.isPrefixOf_iff_prefix]
  constructor
  · intro hword
    rcases List.prefix_or_prefix_of_prefix hword (List.prefix_append a (c :: b)) with h | ⟨t, rfl⟩
    · exact h
    · cases t with
      | nil => simp
      | cons d t =>
        obtain ⟨rfl, _⟩ := List.cons_prefix_cons.mp ((List.prefix_append_right_inj a).mp hword)
        exact absurd (by simp) hc
  · intro hword
    exact hword.trans (List.prefix_append a (c :: b))

/-- The identifier of a field has no spaces. -/
theorem space_not_mem_fieldChars (name : List Char) : ' ' ∉ fieldChars name := by
  intro hmem
  obtain ⟨c, _, hc⟩ := List.mem_map.mp (List.mem_filter.mp hmem).1
  split at hc
  · exact absurd hc (by decide)
  next hspace => exact hspace hc

/-- The identifier of a field has no capital letters of the basic alphabet. -/
theorem isUpper_of_mem_fieldChars {name : List Char} {c : Char} (h : c ∈ fieldChars name) :
    c.isUpper = false := by
  obtain ⟨d, hd, hc⟩ := List.mem_map.mp (List.mem_filter.mp h).1
  split at hc
  · rw [← hc]
    rfl
  · exact hc ▸ Text.isUpper_of_mem_lowerAfter hd

/-- A character of an identifier that may be written raw is a mark of that or stands in the
identifier. -/
theorem mem_escapeReserved {name : String} {c : Char} (h : c ∈ (escapeReserved name).toList) :
    c = 'r' ∨ c = '#' ∨ c ∈ name.toList := by
  unfold escapeReserved at h
  split at h
  · simpa [or_assoc] using h
  · exact .inr (.inr h)

namespace Expr

/-- The characters of a group. -/
theorem toList_render_group (inner : Expr) :
    (group inner).render.toList = grouped inner.render.toList := by
  simp [render, grouped]

/-- The characters of two operands with an operator between them. -/
theorem toList_render_binary (lhs : Expr) (op : Operator) (rhs : Expr) :
    (binary lhs op rhs).render.toList =
      lhs.render.toList ++ ' ' :: (op.native.toList ++ ' ' :: rhs.render.toList) := by
  simp [render]

theorem withUnary_cons (op : UnaryOperator) (ops : List UnaryOperator) (expr : Expr) :
    withUnary (op :: ops) expr = .unary (op :: ops) expr :=
  rfl

/-- The characters of unary operators in front of an expression in parentheses. -/
theorem toList_render_unary (ops : List UnaryOperator) (inner : Expr) :
    (unary ops inner).render.toList =
      ops.map UnaryOperator.char ++ grouped inner.render.toList := by
  simp [render, grouped]

/-- What stands for a version is the parts of its name in parentheses, behind a word. -/
theorem toList_render_version (text : List Char) :
    (Reference.version ((text.splitOn '.').map String.ofList)).render.toList =
      "FileVersion".toList ++ grouped (", ".toList.intercalate (text.splitOn '.')) := by
  simp [Reference.render, grouped, String.toList_intercalate, Function.comp_def]

/-- What stands for a name or number is one of four: the number, the argument, a version value, or
the identifier of a field. -/
theorem render_leaf_cases (text : List Char) :
    ((∀ c ∈ text, Text.isNumericChar c = true) ∧
      (leaf (String.ofList text)).render.toList = text) ∨
    (text = "#ARG#".toList ∧ (leaf (String.ofList text)).render.toList = "arg".toList) ∨
    ('.' ∈ text ∧ (leaf (String.ofList text)).render.toList =
      "FileVersion".toList ++ grouped (", ".toList.intercalate (text.splitOn '.'))) ∨
    ('.' ∉ text ∧ (leaf (String.ofList text)).render =
      escapeReserved (String.ofList (fieldChars text))) := by
  unfold leaf
  split
  next hnumeric =>
    simp only [Text.isNumeric, Bool.and_eq_true, List.all_eq_true, String.toList_ofList] at hnumeric
    exact .inl ⟨hnumeric.2, by simp [render]⟩
  rw [render]
  unfold Reference.ofName
  split
  next hname =>
    refine .inr (.inl ⟨?_, by rfl⟩)
    rw [← hname, String.toList_ofList]
  split
  next hpoint =>
    rw [String.toList_ofList] at hpoint ⊢
    exact .inr (.inr (.inl ⟨hpoint, toList_render_version text⟩))
  next hpoint =>
    rw [String.toList_ofList] at hpoint ⊢
    exact .inr (.inr (.inr ⟨hpoint, rfl⟩))

/-- The generated text of an expression tells whether it begins with a version value and whether it
stands in parentheses as an operand. -/
structure Legible (expr : Expr) : Prop where
  beginsWith_eq : Text.beginsWith expr.render "FileVersion" = expr.startsWithVersion
  needsGroup_eq : expr.needsGroup = (Text.holds expr.render " " && !expr.startsWithVersion)

/-- A text without spaces and without the first letter of a version value is no version value and no
compound operand. -/
theorem legible_of_not_mem {expr : Expr} (hgroup : expr.needsGroup = false)
    (hversion : expr.startsWithVersion = false) (hspace : ' ' ∉ expr.render.toList)
    (hcapital : 'F' ∉ expr.render.toList) : Legible expr := by
  have hholds : Text.holds expr.render " " = false := by
    rw [← Bool.not_eq_true, Text.holds_space_iff]
    exact hspace
  have hbegins : Text.beginsWith expr.render "FileVersion" = false := by
    rw [← Bool.not_eq_true, Text.beginsWith, List.isPrefixOf_iff_prefix]
    intro hword
    exact hcapital (hword.subset (by decide))
  exact ⟨hbegins.trans hversion.symm, by rw [hgroup, hholds, Bool.false_and]⟩

/-- A text with a space in it that begins with a character of its own is a compound operand. -/
theorem legible_of_first {expr : Expr} {c : Char} {rest : List Char}
    (hrender : expr.render.toList = c :: rest) (hc : c ≠ 'F') (hspace : ' ' ∈ rest)
    (hgroup : expr.needsGroup = true) (hversion : expr.startsWithVersion = false) :
    Legible expr := by
  have hholds : Text.holds expr.render " " = true := by
    rw [Text.holds_space_iff, hrender]
    exact List.mem_cons_of_mem c hspace
  have hbegins : Text.beginsWith expr.render "FileVersion" = false := by
    rw [← Bool.not_eq_true, Text.beginsWith, hrender, List.isPrefixOf_iff_prefix]
    rintro ⟨more, hmore⟩
    exact hc (List.cons.inj hmore).1.symm
  exact ⟨hbegins.trans hversion.symm, by rw [hgroup, hholds, hversion]; rfl⟩

/-- What stands for a text without operators and parentheses is legible. -/
theorem legible_leaf (text : String) : Legible (leaf text) := by
  unfold leaf
  split
  next hnumeric =>
    have hall : ∀ c ∈ text.toList, Text.isNumericChar c = true := by
      simp only [Text.isNumeric, Bool.and_eq_true, List.all_eq_true] at hnumeric
      exact hnumeric.2
    refine legible_of_not_mem rfl rfl ?_ ?_
    · intro hmem
      exact absurd (hall ' ' hmem) (by decide)
    · intro hmem
      exact absurd (hall 'F' hmem) (by decide)
  · unfold Reference.ofName
    split
    · exact legible_of_not_mem rfl rfl (by decide) (by decide)
    · split
      · refine ⟨?_, by simp [needsGroup, startsWithVersion]⟩
        rw [startsWithVersion, Text.beginsWith, List.isPrefixOf_iff_prefix]
        simp only [render, Reference.render, String.toList_append]
        exact ⟨_, rfl⟩
      · refine legible_of_not_mem rfl rfl ?_ ?_
        · intro hmem
          rcases mem_escapeReserved hmem with h | h | h
          · exact absurd h (by decide)
          · exact absurd h (by decide)
          · exact space_not_mem_fieldChars _ (by simpa using h)
        · intro hmem
          rcases mem_escapeReserved hmem with h | h | h
          · exact absurd h (by decide)
          · exact absurd h (by decide)
          · exact absurd (isUpper_of_mem_fieldChars (by simpa using h)) (by decide)

/-- The text of a legible expression as an operand is made of its text. -/
theorem Legible.render_asOperand {expr : Expr} (h : Legible expr) :
    expr.asOperand.render = wrapped expr.render := by
  rw [asOperand, wrapped, h.beginsWith_eq, ← h.needsGroup_eq]
  split <;> rfl

/-- A legible expression is legible as an operand. -/
theorem Legible.asOperand {expr : Expr} (h : Legible expr) : Legible expr.asOperand := by
  unfold Expr.asOperand
  split
  next hgroup =>
    have hspace : ' ' ∈ expr.render.toList := by
      rw [h.needsGroup_eq, Bool.and_eq_true, Text.holds_space_iff] at hgroup
      exact hgroup.1
    exact legible_of_first (toList_render_group expr) (by decide) (List.mem_append_left _ hspace)
      rfl rfl
  · exact h

/-- Two operands with an operator between them are legible if the left one is. -/
theorem Legible.binary {lhs : Expr} (h : Legible lhs) (op : Operator) (rhs : Expr) :
    Legible (.binary lhs op rhs) := by
  have hholds : Text.holds (Expr.binary lhs op rhs).render " " = true := by
    rw [Text.holds_space_iff, toList_render_binary]
    simp
  refine ⟨?_, by rw [hholds]; rfl⟩
  rw [Text.beginsWith, toList_render_binary, isPrefixOf_append_cons (by decide)]
  exact h.beginsWith_eq

/-- Unary operators stand in front of a parenthesis. -/
theorem Legible.withUnary {lhs : Expr} (h : Legible lhs) (ops : List UnaryOperator) (op : Operator)
    (rhs : Expr) : Legible (withUnary ops (.binary lhs op rhs)) := by
  cases ops with
  | nil => exact h.binary op rhs
  | cons sign signs =>
    have hsign : sign.char ≠ 'F' := by cases sign <;> decide
    exact legible_of_first (toList_render_unary _ _) hsign
      (by simp [grouped, toList_render_binary]) rfl rfl

/-- Every expression that is read is legible. -/
theorem Reads.legible {text : List Char} {expr : Expr} (h : Reads text expr) : Legible expr := by
  induction h with
  | leaf => exact legible_leaf _
  | left _ _ _ ih => exact ih.asOperand
  | node _ _ _ _ ihlhs _ => exact ihlhs.asOperand.withUnary _ _ _

/-- The generated text of a schema expression. -/
def generate (text : String) : Except InputError String :=
  (parse text).map render

/-- A text generates what its expression is rendered as. -/
theorem generate_eq_ok_iff {text generated : String} :
    generate text = .ok generated ↔ ∃ expr, parse text = .ok expr ∧ expr.render = generated := by
  unfold generate
  cases parse text <;> simp [Except.map]

/-- Two joined conditions generate both of their texts with a disjunction between them. -/
theorem generate_joined {a b lhs rhs : String} (ha : generate a = .ok lhs)
    (hb : generate b = .ok rhs) :
    generate ("(" ++ a ++ ") #OR# (" ++ b ++ ")") = .ok (wrapped lhs ++ " || " ++ wrapped rhs) := by
  obtain ⟨lhs, hlhs, rfl⟩ := generate_eq_ok_iff.mp ha
  obtain ⟨rhs, hrhs, rfl⟩ := generate_eq_ok_iff.mp hb
  refine generate_eq_ok_iff.mpr ⟨_, parse_joined hlhs hrhs, ?_⟩
  rw [← (parseChars_eq_ok_iff.mp hlhs).legible.render_asOperand,
    ← (parseChars_eq_ok_iff.mp hrhs).legible.render_asOperand]
  have hor : " || " = " " ++ Operator.or.native ++ " " := rfl
  rw [render, hor, ← String.append_assoc, ← String.append_assoc]

end Expr

end NifBindings
