import NifBindings.Proofs.Expr.Word
import NifBindings.Source.FieldDeclaration

/-!
# Forwarded arguments

What a field hands to the reader of a compound is taken for a single name or number. Other texts of
a field are read as expressions, so that an argument agrees with them exactly if there is nothing to
read in it. An argument with operators is handed on as one name, whether or not it can be read, and
a symbolic token in it is handed on only beside a point.
-/

namespace NifBindings

namespace FieldDeclaration

/-- Around the argument, an annotation for the arguments of a reader has no symbolic tokens. -/
theorem token_isInfix_argumentsLine_iff (op : Operator) (extent : Extent) (value : Expr) :
    op.token.toList <:+: (argumentsLine extent (.argument value)).toList ↔
      op.token.toList <:+: value.render.toList := by
  have hframe {front back : List Char} (hfront : front.any Char.isUpper = false)
      (hback : back.any Char.isUpper = false) :
      op.token.toList <:+: front ++ '(' :: (value.render.toList ++ ' ' :: back) ↔
        op.token.toList <:+: value.render.toList := by
    rw [infix_append_cons_iff (Tokenless.not_mem_token (by decide) (by decide)),
      infix_append_cons_iff (Tokenless.not_mem_token (by decide) (by decide)),
      or_iff_right (Tokenless.of_isUpper (by simpa using hfront) op),
      or_iff_left (Tokenless.of_isUpper (by simpa using hback) op)]
  unfold argumentsLine ReaderArguments.render
  split
  · have hline : ("    #[br(args \x7b inner: (" ++ (value.render ++ " as usize, _header_version") ++
        ") \x7d)]").toList = "    #[br(args \x7b inner: ".toList ++
          '(' :: (value.render.toList ++ ' ' :: "as usize, _header_version) \x7d)]".toList) := by
      simp
    rw [hline]
    exact hframe (by decide) (by decide)
  · have hline : ("    #[br(args(" ++ (value.render ++ " as usize, _header_version") ++
        "))]").toList = "    #[br(args".toList ++
          '(' :: (value.render.toList ++ ' ' :: "as usize, _header_version))]".toList) := by
      simp
    rw [hline]
    exact hframe (by decide) (by decide)

end FieldDeclaration

namespace FieldType

variable {profile : Profile} {model : Model} {name : String} {type : FieldType}

/-- A field is declared exactly if its guard and its count can be read. -/
theorem exists_declaration_iff :
    (∃ field, type.declaration profile model name = .ok field) ↔
      (∃ guard, type.guard = .ok guard) ∧ ∃ count, type.countExpr = .ok count := by
  constructor
  · rintro ⟨field, h⟩
    obtain ⟨guard, hguard, h⟩ := bind_eq_ok_iff.mp h
    obtain ⟨count, hcount, -⟩ := bind_eq_ok_iff.mp h
    exact ⟨⟨guard, hguard⟩, count, hcount⟩
  · rintro ⟨⟨guard, hguard⟩, count, hcount⟩
    exact ⟨_, bind_eq_ok_iff.mpr ⟨guard, hguard, bind_eq_ok_iff.mpr ⟨count, hcount, rfl⟩⟩⟩

/-- A declared field has the extent of its type and hands on what its type does. -/
theorem arguments_of_declaration {field : FieldDeclaration}
    (h : type.declaration profile model name = .ok field) :
    field.extent = type.extent ∧ field.arguments = type.readerArguments profile model := by
  obtain ⟨guard, -, h⟩ := bind_eq_ok_iff.mp h
  obtain ⟨count, -, h⟩ := bind_eq_ok_iff.mp h
  cases h
  exact ⟨rfl, rfl⟩

/-- The text of an argument is handed on as one name or number. This agrees with its expression
exactly if it has no parentheses and no operators, and a symbolic token is left in the annotation
exactly if the text has it and a point. Every field that can be declared hands its argument on to a
compound that takes one, and whether it can be is decided by its guard and its count alone. -/
theorem argumentExpr_agrees_iff {text : String} (hargument : type.argument = some text) :
    type.argumentExpr = some (Expr.leaf text) ∧
    (Expr.generate text = .ok (Expr.leaf text).render ↔ isCompound text.toList = false) ∧
    (∀ op : Operator, op.token.toList <:+:
        (FieldDeclaration.argumentsLine type.extent (.argument (Expr.leaf text))).toList ↔
      '.' ∈ text.toList ∧ op.token.toList <:+: text.toList) ∧
    ∀ (profile : Profile) (model : Model) (name : String),
      ((∃ field, type.declaration profile model name = .ok field) ↔
        (∃ guard, type.guard = .ok guard) ∧ ∃ count, type.countExpr = .ok count) ∧
      ∀ field, type.declaration profile model name = .ok field →
        model.compounds.contains type.base = true → takesArgument profile model type.base = true →
          FieldDeclaration.argumentsLine type.extent (.argument (Expr.leaf text)) ∈
            field.lines := by
  have hleaf : type.argumentExpr = some (Expr.leaf text) := by
    rw [argumentExpr, hargument, Option.map_some]
  refine ⟨hleaf, Expr.generate_eq_leaf_iff, fun op => ?_, fun profile model name =>
    ⟨exists_declaration_iff, fun field hfield hcompound htakes => ?_⟩⟩
  · rw [FieldDeclaration.token_isInfix_argumentsLine_iff, ← Expr.token_isInfix_leaf_iff,
      String.ofList_toList]
  · obtain ⟨hextent, harguments⟩ := arguments_of_declaration hfield
    rw [readerArguments, if_pos hcompound, if_pos htakes, hleaf] at harguments
    simp [FieldDeclaration.lines, harguments, hextent]

/-- A type that hands a name on. -/
def morphType : FieldType :=
  { base := "Morph", argument := some "Num Vertices" }

/-- A model with one compound. -/
def morphModel : Model where
  compounds := ⟨[("Morph", ⟨"Morph", [], false, .empty⟩)], by simp⟩
  version := none
  hierarchy := ⟨.empty, .empty, rfl, rfl⟩

/-- A name is handed on as its expression is generated. -/
theorem argumentExpr_agrees_iff_morphType :
    morphType.argument = some "Num Vertices" ∧
      Expr.generate "Num Vertices" = .ok "num_vertices" ∧
      ∃ field, morphType.declaration .default morphModel "morph" = .ok field ∧
        "    #[br(args(num_vertices as usize, _header_version))]" ∈ field.lines := by
  have hrender : (Expr.leaf "Num Vertices").render = "num_vertices" := by decide +kernel
  have hannotation :
      FieldDeclaration.argumentsLine morphType.extent (.argument (Expr.leaf "Num Vertices")) =
        "    #[br(args(num_vertices as usize, _header_version))]" := by
    decide +kernel
  obtain ⟨-, hagrees, -, hdeclared⟩ := @argumentExpr_agrees_iff morphType "Num Vertices" rfl
  have hgenerate := hagrees.mpr (by decide +kernel)
  obtain ⟨hexists, hline⟩ := hdeclared .default morphModel "morph"
  obtain ⟨field, hfield⟩ := hexists.mpr ⟨⟨_, rfl⟩, _, rfl⟩
  have hargument := hline field hfield (by decide +kernel) (by decide +kernel)
  exact ⟨rfl, hrender ▸ hgenerate, field, hfield, hannotation ▸ hargument⟩

/-- A sum is read as one but handed on as a name. -/
theorem argumentExpr_ne_of_sum :
    ¬∀ (type : FieldType) (text generated : String), type.argument = some text →
      Expr.generate text = .ok generated → type.argumentExpr.map Expr.render = some generated := by
  intro h
  have hfound : matchShape? "Num Keys #ADD# 1".toList =
      some ⟨.bare, [], "Num Keys".toList, .symbolic .add, "1".toList⟩ := by
    decide +kernel
  have hreads : Expr.Reads "Num Keys #ADD# 1".toList _ :=
    .node hfound (by decide) (.leaf (by rfl)) (.leaf (by rfl))
  have hgenerate := Expr.generate_eq_ok_iff.mpr ⟨_, Expr.parseChars_eq_ok_iff.mpr hreads, rfl⟩
  have hsame := h { base := "Morph", argument := some "Num Keys #ADD# 1" } _ _ rfl hgenerate
  exact absurd hsame (by decide +kernel)

end FieldType

end NifBindings
