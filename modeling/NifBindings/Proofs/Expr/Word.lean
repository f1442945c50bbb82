import NifBindings.Proofs.Expr.Balance

/-!
# Texts taken for one name

A text may be taken for a single name or number without a look at the operators in it. What is
generated for it then has a space only between the parentheses of a version value, while two
operands have one on each side of their operator. So a text that can be read is generated in the
same way exactly if there is no operator and no parenthesis in it.
-/

namespace NifBindings

/-- Commas in the place of points leave the parentheses as they are. -/
theorem balanced_intercalate_splitOn (text : List Char) :
    balanced (", ".toList.intercalate (text.splitOn '.')) = balanced text := by
  have hfilter : (", ".toList.intercalate (text.splitOn '.')).filter isParenthesis =
      text.filter isParenthesis := by
    induction text with
    | nil => rfl
    | cons c text ih =>
      have hcons : c :: text = [c] ++ text := rfl
      rw [intercalate_splitOn_cons, List.filter_append, ih, hcons, List.filter_append]
      split
      next h =>
        rw [beq_iff_eq.mp h]
        rfl
      next => rfl
  rw [balanced, balanced, ← balancedFrom_filter, hfilter, balancedFrom_filter]

/-- The number of spaces and underscores in a text. -/
def gapCount (text : List Char) : Nat :=
  text.count ' ' + text.count '_'

theorem gapCount_append (a b : List Char) : gapCount (a ++ b) = gapCount a + gapCount b := by
  simp only [gapCount, List.count_append]
  omega

/-- With commas in the place of points there is one space more for each. -/
theorem gapCount_intercalate_splitOn (text : List Char) :
    gapCount (", ".toList.intercalate (text.splitOn '.')) = gapCount text + text.count '.' := by
  induction text with
  | nil => rfl
  | cons c text ih =>
    have hcons : c :: text = [c] ++ text := rfl
    rw [intercalate_splitOn_cons, gapCount_append, ih, hcons, gapCount_append, List.count_append]
    split
    next h =>
      have hcomma : gapCount ", ".toList = 1 := rfl
      have hpoint : gapCount ['.'] = 0 := rfl
      rw [beq_iff_eq.mp h, hcomma, hpoint, List.count_singleton_self]
      omega
    next h =>
      rw [List.count_singleton, if_neg h]
      omega

/-- The identifier of a field has an underscore for each space and underscore of its name. -/
theorem gapCount_fieldChars (name : List Char) : gapCount (fieldChars name) = gapCount name := by
  have hunderscores (chars : List Char) :
      (chars.map fun c => if c = ' ' then '_' else c).count '_' = gapCount chars := by
    induction chars with
    | nil => rfl
    | cons c chars ih =>
      rw [List.map_cons, List.count_cons, ih, gapCount, gapCount, List.count_cons, List.count_cons]
      by_cases hspace : c = ' '
      · subst hspace
        simp
        omega
      · simp [hspace]
        omega
  have hlower : gapCount (Text.lowerChars name) = gapCount name := by
    rw [gapCount, Text.lowerChars, Text.count_lowerAfter (by simp), Text.count_lowerAfter (by simp),
      gapCount]
  rw [gapCount, List.count_eq_zero.mpr (space_not_mem_fieldChars name), fieldChars,
    List.count_filter (by decide), hunderscores, hlower, Nat.zero_add]

/-- Whether every space of a text stands between parentheses, and the text begins with a capital
letter F if it has one. -/
structure IsWord (text : List Char) : Prop where
  inside : ∀ front behind, text = front ++ ' ' :: behind → depthFrom 0 front ≠ 0
  head : ' ' ∈ text → text.head? = some 'F'

namespace IsWord

/-- A text without spaces is a word. -/
theorem of_not_mem {text : List Char} (hspace : ' ' ∉ text) : IsWord text :=
  ⟨fun front behind htext => absurd (by simp [htext]) hspace, fun h => absurd h hspace⟩

/-- A version value is a word. -/
theorem version {arguments : List Char} (hbalanced : balanced arguments = true) :
    IsWord ("FileVersion".toList ++ grouped arguments) := by
  refine ⟨fun front behind htext => ?_, fun _ => rfl⟩
  rcases List.append_eq_append_iff.mp htext with ⟨more, rfl, hmore⟩ | ⟨more, hword, hmore⟩
  · rw [depthFrom_append]
    exact not_isCut_of_prefix_grouped hbalanced hmore
  · cases more with
    | nil => cases hmore
    | cons c more =>
      obtain ⟨rfl, -⟩ := List.cons.inj hmore
      have hspace : ' ' ∈ "FileVersion".toList := by rw [hword]; simp
      exact absurd hspace (by decide)

/-- A group with a space in it is no word. -/
theorem not_grouped {text : List Char} (hspace : ' ' ∈ text) : ¬IsWord (grouped text) := by
  intro h
  cases h.head (List.mem_cons_of_mem _ (List.mem_append_left _ hspace))

end IsWord

namespace Expr

variable {text : List Char}

/-- What stands for a name or number is a word if the parentheses of its text fit. -/
theorem isWord_leaf (hbalanced : balanced text = true) :
    IsWord (leaf (String.ofList text)).render.toList := by
  rcases render_leaf_cases text with ⟨hnumeric, h⟩ | ⟨-, h⟩ | ⟨-, h⟩ | ⟨-, h⟩
  · rw [h]
    exact .of_not_mem fun hspace => absurd (hnumeric ' ' hspace) (by decide)
  · rw [h]
    exact .of_not_mem (by decide)
  · rw [h]
    exact .version ((balanced_intercalate_splitOn text).trans hbalanced)
  · rw [h]
    refine .of_not_mem fun hspace => ?_
    rcases mem_escapeReserved hspace with h | h | h
    · exact absurd h (by decide)
    · exact absurd h (by decide)
    · exact space_not_mem_fieldChars text (by simpa using h)

/-- What stands for a name or number has a gap for each space, underscore and point of the text. -/
theorem gapCount_render_leaf (text : List Char) :
    gapCount (leaf (String.ofList text)).render.toList = gapCount text + text.count '.' := by
  rcases render_leaf_cases text with ⟨hnumeric, h⟩ | ⟨rfl, h⟩ | ⟨-, h⟩ | ⟨hpoint, h⟩
  · have hnot {c : Char} (hc : Text.isNumericChar c = false) : c ∉ text := fun hmem => by
      rw [hnumeric c hmem] at hc
      cases hc
    rw [h, List.count_eq_zero.mpr (hnot (by decide)), Nat.add_zero]
  · rw [h]
    rfl
  · have hgrouped : grouped (", ".toList.intercalate (text.splitOn '.')) =
        ['('] ++ (", ".toList.intercalate (text.splitOn '.') ++ [')']) := rfl
    have hmarks : gapCount "FileVersion".toList = 0 ∧ gapCount ['('] = 0 ∧ gapCount [')'] = 0 :=
      ⟨rfl, rfl, rfl⟩
    rw [h, hgrouped, gapCount_append, gapCount_append, gapCount_append,
      gapCount_intercalate_splitOn, hmarks.1, hmarks.2.1, hmarks.2.2, Nat.zero_add, Nat.zero_add,
      Nat.add_zero]
  · have hescape (name : String) :
        gapCount (escapeReserved name).toList = gapCount name.toList := by
      unfold escapeReserved
      split
      · have hraw : gapCount "r#".toList = 0 := rfl
        rw [String.toList_append, gapCount_append, hraw, Nat.zero_add]
      · rfl
    rw [h, hescape, String.toList_ofList, gapCount_fieldChars, List.count_eq_zero.mpr hpoint,
      Nat.add_zero]

/-- An operand has fewer gaps and points than the text that it is an operand of. -/
theorem gapCount_lt_of_matchShape? {found : ShapeMatch} (h : matchShape? text = some found) :
    gapCount found.lhs + found.lhs.count '.' < gapCount text + text.count '.' := by
  have htext := (isForm_of_matchShape? h).1.text_eq
  rw [htext]
  unfold ShapeMatch.text
  split
  all_goals
    simp only [gapCount, ShapeMatch.split, Split.text, grouped, List.count_append,
      List.count_cons_self, List.count_cons]
    omega

/-- An expression whose text is a word is a name or number. It stands in the text that is read, and
has fewer gaps and points unless it is all of it. -/
theorem Reads.exists_leaf_of_isWord {expr : Expr} (h : Reads text expr)
    (hword : IsWord expr.render.toList) :
    ∃ part, expr = Expr.leaf (String.ofList part) ∧
      (part = text ∧ isCompound text = false ∨
        gapCount part + part.count '.' < gapCount text + text.count '.') := by
  induction h with
  | @leaf text hleaf => exact ⟨text, rfl, .inl ⟨rfl, hleaf⟩⟩
  | @left text found lhs hfound hop hlhs ih =>
    unfold asOperand at hword ⊢
    split at hword
    next hgroup =>
      rw [hlhs.legible.needsGroup_eq, Bool.and_eq_true, Text.holds_space_iff] at hgroup
      rw [toList_render_group] at hword
      exact absurd hword (IsWord.not_grouped hgroup.1)
    next hgroup =>
      rw [if_neg hgroup]
      obtain ⟨part, rfl, hpart⟩ := ih hword
      have hlt := gapCount_lt_of_matchShape? hfound
      refine ⟨part, rfl, .inr ?_⟩
      rcases hpart with ⟨rfl, -⟩ | hpart
      · exact hlt
      · exact Nat.lt_trans hpart hlt
  | @node text found lhs rhs hfound hop hlhs hrhs =>
    have hbalanced := (isClean_asOperand hlhs.isClean).balanced
    cases hunary : found.unary with
    | nil =>
      rw [hunary, withUnary, toList_render_binary] at hword
      exact absurd (depthFrom_of_balanced hbalanced 0) (hword.inside _ _ rfl)
    | cons sign signs =>
      have hsign : sign.char ≠ 'F' := by cases sign <;> decide
      rw [hunary, withUnary_cons, toList_render_unary] at hword
      have hhead := hword.head (by simp [grouped, toList_render_binary])
      simp [hsign] at hhead

/-- A text is generated as one name or number exactly if no operator and no parenthesis stands in
it. -/
theorem generate_eq_leaf_iff {text : String} :
    generate text = .ok (leaf text).render ↔ isCompound text.toList = false := by
  constructor
  · intro h
    obtain ⟨expr, hparse, hrender⟩ := generate_eq_ok_iff.mp h
    have hreads := parseChars_eq_ok_iff.mp hparse
    have hword := isWord_leaf hreads.balanced
    rw [String.ofList_toList, ← hrender] at hword
    obtain ⟨part, rfl, ⟨-, hleaf⟩ | hlt⟩ := hreads.exists_leaf_of_isWord hword
    · exact hleaf
    · have hpart := gapCount_render_leaf part
      have htext := gapCount_render_leaf text.toList
      rw [hrender] at hpart
      rw [String.ofList_toList] at htext
      omega
  · intro hleaf
    have hreads := Reads.leaf hleaf
    rw [String.ofList_toList] at hreads
    exact generate_eq_ok_iff.mpr ⟨_, parseChars_eq_ok_iff.mpr hreads, rfl⟩

/-- A symbolic token is left in what stands for a name or number exactly if it stands beside a point
in the text, because only version values are copied. -/
theorem token_isInfix_leaf_iff (op : Operator) (text : List Char) :
    op.token.toList <:+: (leaf (String.ofList text)).render.toList ↔
      '.' ∈ text ∧ op.token.toList <:+: text := by
  have hhash : '#' ∈ op.token.toList := by cases op <;> decide
  rcases render_leaf_cases text with ⟨hnumeric, h⟩ | ⟨rfl, h⟩ | ⟨hpoint, h⟩ | ⟨hpoint, h⟩
  · have hfalse : ¬op.token.toList <:+: text := fun htoken =>
      absurd (hnumeric '#' (htoken.subset hhash)) (by decide)
    rw [h]
    simp [hfalse]
  · rw [h]
    refine iff_of_false (fun htoken => ?_) fun hpoint => absurd hpoint.1 (by decide)
    exact absurd (htoken.subset hhash) (by decide)
  · have hword : op.token.toList ≠ [] := List.ne_nil_of_mem hhash
    have hname : ¬op.token.toList <:+: "FileVersion".toList := fun htoken =>
      absurd (htoken.subset hhash) (by decide)
    have htext : op.token.toList <:+: text ↔
        ∃ part ∈ text.splitOn '.', op.token.toList <:+: part := by
      rw [← infix_intercalate_iff hword (List.cons_ne_nil '.' []), List.intercalate_splitOn]
      simpa using Tokenless.not_mem_token (by decide) (by decide)
    rw [h, grouped, infix_append_cons_iff (Tokenless.not_mem_token (by decide) (by decide)),
      infix_append_cons_iff (Tokenless.not_mem_token (by decide) (by decide)),
      infix_intercalate_iff hword (by decide), htext, or_iff_right hname, List.infix_nil,
      or_iff_left hword, and_iff_right hpoint]
    intro c hc
    have hmark : c = ',' ∨ c = ' ' := by simpa using hc
    rcases hmark with rfl | rfl
    · exact Tokenless.not_mem_token (by decide) (by decide)
    · exact Tokenless.not_mem_token (by decide) (by decide)
  · refine iff_of_false (fun htoken => ?_) fun hpoint' => hpoint hpoint'.1
    rw [h] at htoken
    refine Tokenless.of_isUpper (fun c hc => ?_) op htoken
    rcases mem_escapeReserved hc with rfl | rfl | hc
    · rfl
    · rfl
    · exact isUpper_of_mem_fieldChars (by simpa using hc)

end Expr

end NifBindings
