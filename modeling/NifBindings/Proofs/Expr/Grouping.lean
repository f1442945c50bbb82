import NifBindings.Proofs.Expr.Shape
import NifBindings.Proofs.Expr.Precedence

/-!
# Grouping of operands

The shapes of a text say which operands its operators apply to, and the text that is generated for
it leaves out parentheses around operands that begin with a version value. It is read with the same
grouping exactly if its operands can be read at all and none of those left bare binds too loosely
for the operator beside it.
-/

namespace NifBindings

/-- The phrase of a text without operators: an operand behind signs. -/
def Phrase.ofLeaf (text : List Char) : Phrase :=
  .operand (takeUnary text).1 (takeUnary text).2

namespace Expr

/-- The phrase that an expression is written as. -/
def phrase : Expr → Phrase
  | .numeral digits => .ofLeaf digits.toList
  | .reference target => .ofLeaf target.render.toList
  | .group inner => .group [] inner.phrase
  | .binary lhs op rhs => .binary lhs.phrase op rhs.phrase
  | .unary ops inner => .group ops inner.phrase

/-- What the operators of an expression apply to. -/
def grouping (expr : Expr) : Grouping :=
  expr.phrase.grouping

@[simp] theorem grouping_asOperand (expr : Expr) : expr.asOperand.grouping = expr.grouping := by
  unfold asOperand
  split <;> rfl

@[simp] theorem grouping_withUnary (ops : List UnaryOperator) (lhs rhs : Expr) (op : Operator) :
    (withUnary ops (binary lhs op rhs)).grouping =
      .signed ops (.binary lhs.grouping op rhs.grouping) := by
  cases ops <;> rfl

end Expr

/-- What the operators of a text apply to by its shapes. Of a bitwise or the left operand is
kept. -/
inductive Shaped : List Char → Grouping → Prop
  | leaf {text : List Char} (hleaf : isCompound text = false) :
      Shaped text (Expr.leaf (String.ofList text)).grouping
  | left {text : List Char} {found : ShapeMatch} {lhs : Grouping}
      (hfound : matchShape? text = some found) (hop : found.op.operator = .bitOr)
      (hlhs : Shaped found.lhs lhs) : Shaped text lhs
  | node {text : List Char} {found : ShapeMatch} {lhs rhs : Grouping}
      (hfound : matchShape? text = some found) (hop : found.op.operator ≠ .bitOr)
      (hlhs : Shaped found.lhs lhs) (hrhs : Shaped found.rhs rhs) :
      Shaped text (.signed found.unary (.binary lhs found.op.operator rhs))

/-- The shapes of a text give it one grouping. -/
theorem Shaped.unique {text : List Char} {a b : Grouping} (ha : Shaped text a)
    (hb : Shaped text b) : a = b := by
  have hnot {text : List Char} {found : ShapeMatch} (hleaf : isCompound text = false)
      (hfound : matchShape? text = some found) : False := by
    rw [isCompound_of_matchShape? hfound] at hleaf
    cases hleaf
  induction ha generalizing b with
  | leaf hleaf =>
    cases hb with
    | leaf => rfl
    | left hfound => exact (hnot hleaf hfound).elim
    | node hfound => exact (hnot hleaf hfound).elim
  | left hfound hop _ ih =>
    cases hb with
    | leaf hleaf => exact (hnot hleaf hfound).elim
    | left hfound' _ hlhs =>
      cases hfound.symm.trans hfound'
      exact ih hlhs
    | node hfound' hop' =>
      cases hfound.symm.trans hfound'
      exact absurd hop hop'
  | node hfound hop _ _ ihl ihr =>
    cases hb with
    | leaf hleaf => exact (hnot hleaf hfound).elim
    | left hfound' hop' =>
      cases hfound.symm.trans hfound'
      exact absurd hop' hop
    | node hfound' _ hlhs hrhs =>
      cases hfound.symm.trans hfound'
      rw [ihl hlhs, ihr hrhs]

/-- An expression has the grouping that the shapes of its text give. -/
theorem Expr.Reads.shaped {text : List Char} {expr : Expr} (h : Expr.Reads text expr) :
    Shaped text expr.grouping := by
  induction h with
  | leaf hleaf => exact .leaf hleaf
  | left hfound hop _ ih =>
    rw [Expr.grouping_asOperand]
    exact .left hfound hop ih
  | node hfound hop _ _ ihl ihr =>
    rw [Expr.grouping_withUnary, Expr.grouping_asOperand, Expr.grouping_asOperand]
    exact .node hfound hop ihl ihr

namespace Expr

/-- The operands of an expression can be read one by one. -/
def HasReadableOperands (expr : Expr) : Prop :=
  ∀ text ∈ expr.grouping.operands, IsOperand text

/-- The tokens of a leaf in front of other text. -/
theorem tokenize_leaf {text rest : List Char} (htext : IsOperand (takeUnary text).2)
    (hrest : EndsOperand rest) :
    tokenize false (text ++ rest) =
      (tokenize true rest).map ((Phrase.ofLeaf text).tokens ++ ·) := by
  rw [← takeUnary_append text, List.append_assoc, tokenize_signs, tokenize_operand htext hrest,
    Option.map_map, takeUnary_append, Phrase.ofLeaf, Phrase.tokens]
  simp [Function.comp_def]

/-- The tokens of the text of an expression in front of other text are those of its phrase. -/
theorem tokenize_render_append {expr : Expr} (hexpr : expr.HasReadableOperands) {rest : List Char}
    (hrest : EndsOperand rest) :
    tokenize false (expr.render.toList ++ rest) =
      (tokenize true rest).map (expr.phrase.tokens ++ ·) := by
  induction expr generalizing rest with
  | numeral digits =>
    refine tokenize_leaf (hexpr _ ?_) hrest
    simp [grouping, phrase, Phrase.ofLeaf, Phrase.grouping, Grouping.operands, render]
  | reference target =>
    refine tokenize_leaf (hexpr _ ?_) hrest
    simp [grouping, phrase, Phrase.ofLeaf, Phrase.grouping, Grouping.operands, render]
  | group inner ih =>
    have hinner : inner.HasReadableOperands := hexpr
    have htext : (Expr.group inner).render.toList ++ rest =
        '(' :: (inner.render.toList ++ ')' :: rest) := by
      simp [render]
    rw [htext, tokenize_open, ih hinner (endsOperand_close rest), tokenize_close]
    simp [phrase, Phrase.tokens, Function.comp_def]
  | binary lhs op rhs ihl ihr =>
    have hlhs : lhs.HasReadableOperands := fun text htext =>
      hexpr text (List.mem_append_left _ htext)
    have hrhs : rhs.HasReadableOperands := fun text htext =>
      hexpr text (List.mem_append_right _ htext)
    have htext : (Expr.binary lhs op rhs).render.toList ++ rest =
        lhs.render.toList ++ ' ' :: (op.native.toList ++ ' ' :: (rhs.render.toList ++ rest)) := by
      simp [render]
    rw [htext, ihl hlhs (endsOperand_space _), tokenize_space, tokenize_operator, ihr hrhs hrest]
    simp [phrase, Phrase.tokens, Function.comp_def]
  | unary ops inner ih =>
    have hinner : inner.HasReadableOperands := by
      intro text htext
      refine hexpr text ?_
      rwa [grouping, phrase, Phrase.grouping, Grouping.operands_signed]
    have htext : (Expr.unary ops inner).render.toList ++ rest =
        ops.map UnaryOperator.char ++ '(' :: (inner.render.toList ++ ')' :: rest) := by
      simp [render]
    rw [htext, tokenize_signs, tokenize_open, ih hinner (endsOperand_close rest), tokenize_close]
    simp [phrase, Phrase.tokens, Function.comp_def]

/-- The tokens of the text of an expression are those of its phrase. -/
theorem tokenize_render {expr : Expr} (hexpr : expr.HasReadableOperands) :
    tokenize false expr.render.toList = some expr.phrase.tokens := by
  simpa using tokenize_render_append hexpr endsOperand_nil

/-- The text of an expression is read with its grouping exactly if its operands can be read and all
of them that stand without parentheses bind tightly enough. -/
theorem isReading_grouping_iff (expr : Expr) :
    IsReading expr.render.toList expr.grouping ↔
      expr.HasReadableOperands ∧ expr.phrase.Tight := by
  constructor
  · rintro ⟨phrase, hphrase, htight, hgrouping⟩
    have hexpr : expr.HasReadableOperands := by
      intro text htext
      rw [← hgrouping, Phrase.mem_operands_iff] at htext
      exact isOperand_of_mem_tokenize hphrase htext
    rw [tokenize_render hexpr, Option.some.injEq] at hphrase
    rcases Phrase.eq_or_diverges hphrase with hsame | hdiverges
    · exact ⟨hexpr, hsame ▸ htight⟩
    · exact absurd hgrouping.symm hdiverges.grouping_ne
  · rintro ⟨hexpr, htight⟩
    exact ⟨expr.phrase, tokenize_render hexpr, htight, rfl⟩

/-- An operand that begins with no version value is no operator left bare. -/
theorem fits_asOperand {expr : Expr} (h : expr.startsWithVersion = false) (op : Operator) :
    expr.asOperand.phrase.FitsBefore op ∧ expr.asOperand.phrase.FitsBehind op := by
  cases expr with
  | numeral | reference | group | unary => exact ⟨trivial, trivial⟩
  | binary lhs inner rhs =>
    have hneeds : (Expr.binary lhs inner rhs).needsGroup = true := by
      rw [startsWithVersion] at h
      simp [needsGroup, h]
    rw [asOperand, if_pos hneeds]
    exact ⟨trivial, trivial⟩

/-- Parentheses around an operand keep it tight, and it begins with a version value only if it did
without them. -/
theorem tight_asOperand {expr : Expr} (htight : expr.phrase.Tight)
    (hversion : expr.startsWithVersion = false) :
    expr.asOperand.phrase.Tight ∧ expr.asOperand.startsWithVersion = false := by
  unfold asOperand
  split
  · exact ⟨htight, rfl⟩
  · exact ⟨htight, hversion⟩

/-- In a text without a point every operand that must stand in parentheses does. -/
theorem Reads.tight_of_point_not_mem {text : List Char} {expr : Expr} (h : Reads text expr)
    (hpoint : '.' ∉ text) : expr.phrase.Tight ∧ expr.startsWithVersion = false := by
  induction h with
  | @leaf text hleaf =>
    have hname : '.' ∉ (String.ofList text).toList := by simpa using hpoint
    unfold Expr.leaf
    split
    · exact ⟨trivial, rfl⟩
    · refine ⟨trivial, ?_⟩
      unfold Reference.ofName
      rw [if_neg hname]
      split <;> rfl
  | left hfound _ _ ih =>
    obtain ⟨hlhs, _, _⟩ := isInfix_of_matchShape? hfound
    obtain ⟨htight, hversion⟩ := ih fun hmem => hpoint (hlhs.subset hmem)
    exact tight_asOperand htight hversion
  | @node text found lhs rhs hfound _ _ _ ihl ihr =>
    obtain ⟨hlhs, _, hrhs⟩ := isInfix_of_matchShape? hfound
    obtain ⟨hltight, hlversion⟩ := ihl fun hmem => hpoint (hlhs.subset hmem)
    obtain ⟨hrtight, hrversion⟩ := ihr fun hmem => hpoint (hrhs.subset hmem)
    have htight : (Expr.binary lhs.asOperand found.op.operator rhs.asOperand).phrase.Tight :=
      ⟨(tight_asOperand hltight hlversion).1, (tight_asOperand hrtight hrversion).1,
        (fits_asOperand hlversion _).1, (fits_asOperand hrversion _).2⟩
    cases found.unary with
    | nil => exact ⟨htight, (tight_asOperand hltight hlversion).2⟩
    | cons sign signs => exact ⟨htight, rfl⟩

/-- The operators of a text without a point apply to the same operands in what is generated. -/
theorem isReading_of_point_not_mem {text : String} {expr : Expr} (h : parse text = .ok expr)
    (hpoint : '.' ∉ text.toList) (hoperands : expr.HasReadableOperands) :
    IsReading expr.render.toList expr.grouping :=
  (isReading_grouping_iff expr).mpr
    ⟨hoperands, ((parseChars_eq_ok_iff.mp h).tight_of_point_not_mem hpoint).1⟩

/-- The shapes of a text give its operators one grouping, and what is generated for the text is read
with that grouping exactly if its operands can be read and those left bare bind tightly enough. -/
theorem isReading_shape_iff {text : String} {expr : Expr} (h : parse text = .ok expr) :
    ∃ shape, (∀ grouping, Shaped text.toList grouping ↔ grouping = shape) ∧
      (IsReading expr.render.toList shape ↔ expr.HasReadableOperands ∧ expr.phrase.Tight) := by
  have hshaped := (parseChars_eq_ok_iff.mp h).shaped
  refine ⟨expr.grouping, ?_, isReading_grouping_iff expr⟩
  intro grouping
  constructor
  · exact fun hgrouping => hgrouping.unique hshaped
  · rintro rfl
    exact hshaped

/-- A sum that begins with a version value binds more tightly than a comparison. -/
theorem isReading_shape_bareSum :
    ∃ expr shape, parse "(Num Vertices #SUB# 1) #GT# (10.1 #ADD# X)" = .ok expr ∧
      expr.render = "(num_vertices - 1) > FileVersion(10, 1) + x" ∧
      Shaped "(Num Vertices #SUB# 1) #GT# (10.1 #ADD# X)".toList shape ∧
      IsReading expr.render.toList shape := by
  have houter : matchShape? "(Num Vertices #SUB# 1) #GT# (10.1 #ADD# X)".toList =
      some ⟨.grouped, [], "Num Vertices #SUB# 1".toList, .symbolic .gt, "10.1 #ADD# X".toList⟩ := by
    decide +kernel
  have hlhs : matchShape? "Num Vertices #SUB# 1".toList =
      some ⟨.bare, [], "Num Vertices".toList, .symbolic .sub, "1".toList⟩ := by
    decide +kernel
  have hrhs : matchShape? "10.1 #ADD# X".toList =
      some ⟨.bare, [], "10.1".toList, .symbolic .add, "X".toList⟩ := by
    decide +kernel
  have hparse : parse "(Num Vertices #SUB# 1) #GT# (10.1 #ADD# X)" = .ok _ :=
    parseChars_eq_ok_iff.mpr (.node houter (by decide)
      (.node hlhs (by decide) (.leaf (by decide +kernel)) (.leaf (by decide +kernel)))
      (.node hrhs (by decide) (.leaf (by decide +kernel)) (.leaf (by decide +kernel))))
  obtain ⟨shape, hshape, hreading⟩ := isReading_shape_iff hparse
  refine ⟨_, shape, hparse, by decide +kernel, (hshape shape).mpr rfl, hreading.mpr ⟨?_, ?_⟩⟩
  · unfold HasReadableOperands
    decide +kernel
  · decide +kernel

/-- A disjunction that begins with a version value is left bare beside a conjunction, which then
applies to the right half of it only. -/
theorem not_isReading_shape_bareDisjunction :
    ∃ expr shape reading, parse "(1.2 #OR# A) #AND# (B)" = .ok expr ∧
      expr.render = "FileVersion(1, 2) || a && b" ∧
      Shaped "(1.2 #OR# A) #AND# (B)".toList shape ∧ IsReading expr.render.toList reading ∧
      reading ≠ shape := by
  have houter : matchShape? "(1.2 #OR# A) #AND# (B)".toList =
      some ⟨.grouped, [], "1.2 #OR# A".toList, .symbolic .and, "B".toList⟩ := by
    decide +kernel
  have hlhs : matchShape? "1.2 #OR# A".toList =
      some ⟨.bare, [], "1.2".toList, .symbolic .or, "A".toList⟩ := by
    decide +kernel
  have hreads : Reads "(1.2 #OR# A) #AND# (B)".toList _ :=
    .node houter (by decide)
      (.node hlhs (by decide) (.leaf (by decide +kernel)) (.leaf (by decide +kernel)))
      (.leaf (by decide +kernel))
  let conjunction : Phrase := .binary (.operand [] ['a']) .and (.operand [] ['b'])
  let phrase : Phrase := .binary (.operand [] "FileVersion(1, 2)".toList) .or conjunction
  refine ⟨_, _, phrase.grouping, parseChars_eq_ok_iff.mpr hreads, by decide +kernel, hreads.shaped,
    ⟨phrase, ?_, by decide, rfl⟩, by decide +kernel⟩
  refine (tokenize_render ?_).trans (by decide +kernel)
  unfold HasReadableOperands
  decide +kernel

end Expr

end NifBindings
