import NifBindings.Proofs.Expr.Rejection
import NifBindings.Proofs.Expr.Sign

/-!
# Texts in parentheses

A text in parentheses, perhaps behind signs, is split where the text itself is split outside
parentheses, and it is rejected if the text has no operator there. Its operands are then read in the
parentheses that they already stand in, so that the whole may be rejected further down, or signs may
come to apply to the left operand alone. Where a text keeps its meaning in parentheses, the very
same expression is read from it.
-/

namespace NifBindings

variable {signs : List UnaryOperator} {text rest : List Char} {split : Split} {found : ShapeMatch}

/-- Signs have no spaces. -/
theorem space_not_mem_signs (signs : List UnaryOperator) :
    ' ' ∉ signs.map UnaryOperator.char := by
  intro hmem
  obtain ⟨sign, -, hsign⟩ := List.mem_map.mp hmem
  cases sign <;> cases hsign

/-- A cut of a text behind signs is one of the text, with the signs in front. -/
theorem IsCut.exists_behind_signs (h : IsCut (signs.map UnaryOperator.char ++ rest) split) :
    ∃ lhs, split.lhs = signs.map UnaryOperator.char ++ lhs ∧
      rest = lhs ++ ' ' :: (split.op.text.toList ++ ' ' :: split.rhs) ∧ depthFrom 0 lhs = 0 := by
  have hdepth := h.depth_eq
  rcases List.append_eq_append_iff.mp h.text_eq with ⟨lhs, hlhs, hrest⟩ | ⟨more, hsigns, hrest⟩
  · refine ⟨lhs, hlhs, hrest, ?_⟩
    rwa [hlhs, depthFrom_append, depthFrom_of_balanced (balanced_signs signs)] at hdepth
  · -- The space of the cut stands behind the signs, so that nothing of them is left over.
    cases more with
    | nil =>
      rw [List.append_nil] at hsigns
      rw [List.nil_append] at hrest
      exact ⟨[], by rw [← hsigns, List.append_nil], hrest.symm, rfl⟩
    | cons c more =>
      obtain ⟨rfl, -⟩ := List.cons.inj hrest
      exact absurd (by simp [hsigns]) (space_not_mem_signs signs)

/-- A group behind signs is not split outside of it. -/
theorem splitBinary?_signs_grouped (htext : balanced text = true) (signs : List UnaryOperator) :
    splitBinary? (signs.map UnaryOperator.char ++ grouped text) = none := by
  cases hsplit : splitBinary? (signs.map UnaryOperator.char ++ grouped text) with
  | none => rfl
  | some split =>
    obtain ⟨lhs, -, hgroup, hdepth⟩ := (splitBinary?_eq_some_iff.mp hsplit).1.exists_behind_signs
    exact absurd hdepth (not_isCut_of_prefix_grouped htext hgroup)

/-- Signs in front of a text that is split behind an opening parenthesis go to its left operand. -/
theorem splitBinary?_signs (hsplit : splitBinary? ('(' :: rest) = some split)
    (signs : List UnaryOperator) :
    splitBinary? (signs.map UnaryOperator.char ++ '(' :: rest) =
      some ⟨signs.map UnaryOperator.char ++ split.lhs, split.op, split.rhs⟩ := by
  obtain ⟨hcut, hlast⟩ := splitBinary?_eq_some_iff.mp hsplit
  have hsigned : IsCut (signs.map UnaryOperator.char ++ '(' :: rest)
      ⟨signs.map UnaryOperator.char ++ split.lhs, split.op, split.rhs⟩ := by
    refine ⟨?_, ?_, by simp [hcut.lhs_ne_nil], hcut.rhs_ne_nil⟩
    · rw [hcut.text_eq, List.append_assoc]
    · rw [depthFrom_append, depthFrom_of_balanced (balanced_signs signs), hcut.depth_eq]
  refine splitBinary?_eq_some_iff.mpr ⟨hsigned, fun other hother => ?_⟩
  obtain ⟨lhs, hlhs, hrest, hdepth⟩ := hother.exists_behind_signs
  have hne : lhs ≠ [] := by
    rintro rfl
    cases hrest
  have hle := hlast ⟨lhs, other.op, other.rhs⟩ ⟨hrest, hdepth, hne, hother.rhs_ne_nil⟩
  rw [hlhs, List.length_append, List.length_append]
  exact Nat.add_le_add_left hle _

/-- A text in parentheses behind signs is taken apart where the text itself is split. -/
theorem matchShape?_signs_grouped (htext : balanced text = true) (signs : List UnaryOperator) :
    matchShape? (signs.map UnaryOperator.char ++ grouped text) =
      (splitBinary? text).map (Split.toMatch · .parenthesized signs) := by
  have hbalanced : balanced (signs.map UnaryOperator.char ++ grouped text) = true := by
    rw [balanced_append (balanced_signs signs)]
    exact balanced_grouped htext
  have hunary : takeUnary (signs.map UnaryOperator.char ++ grouped text) = (signs, grouped text) :=
    takeUnary_signs signs _
  have hinside : splitParenthesized? (grouped text) = splitBinary? text := by
    have hunwrap : unwrapGroup? (grouped text) = some text :=
      unwrapGroup?_eq_some_iff.mpr ⟨rfl, htext⟩
    rw [splitParenthesized?, hunwrap]
    rfl
  unfold matchShape?
  rw [if_pos hbalanced, hunary]
  dsimp only
  rw [splitGrouped?_grouped htext, hinside, splitBinary?_signs_grouped htext signs]
  cases splitBinary? text <;> rfl

section Split

/-- A text without a shape has no operator outside parentheses. -/
theorem splitBinary?_of_matchShape?_eq_none (htext : balanced text = true)
    (hnone : matchShape? text = none) : splitBinary? text = none := by
  unfold matchShape? at hnone
  rw [if_pos htext] at hnone
  dsimp only at hnone
  split at hnone
  · cases hnone
  · split at hnone
    · cases hnone
    · exact Option.map_eq_none_iff.mp hnone

/-- A bare text is split at its operator. -/
theorem splitBinary?_of_bare (hfound : matchShape? text = some found)
    (hshape : found.shape = .bare) :
    splitBinary? text = some ⟨found.lhs, found.op, found.rhs⟩ ∧ found.unary = [] := by
  obtain ⟨-, ⟨split, -, rfl⟩ | ⟨-, split, -, rfl⟩ | ⟨-, -, split, hsplit, rfl⟩⟩ :=
    matchShape?_eq_some_iff.mp hfound
  · cases hshape
  · cases hshape
  · exact ⟨hsplit, rfl⟩

/-- A text that is one group behind signs has no operator outside of it. -/
theorem splitBinary?_of_parenthesized (hfound : matchShape? text = some found)
    (hshape : found.shape = .parenthesized) : splitBinary? text = none := by
  have hwhole := takeUnary_append text
  obtain ⟨-, ⟨split, -, rfl⟩ | ⟨-, split, hsplit, rfl⟩ | ⟨-, -, split, -, rfl⟩⟩ :=
    matchShape?_eq_some_iff.mp hfound
  · cases hshape
  · obtain ⟨inside, hinside, -⟩ := splitParenthesized?_eq_some_iff.mp hsplit
    obtain ⟨hgroup, hbalanced⟩ := unwrapGroup?_eq_some_iff.mp hinside
    rw [← hwhole, hgroup]
    exact splitBinary?_signs_grouped hbalanced _
  · cases hshape

/-- A text of two groups is split between them, and the signs stand in front of the left one. -/
theorem splitBinary?_of_grouped (hfound : matchShape? text = some found)
    (hshape : found.shape = .grouped) :
    splitBinary? text = some ⟨found.unary.map UnaryOperator.char ++ grouped found.lhs, found.op,
      grouped found.rhs⟩ := by
  have hwhole := takeUnary_append text
  obtain ⟨-, ⟨split, hsplit, rfl⟩ | ⟨-, split, -, rfl⟩ | ⟨-, -, split, -, rfl⟩⟩ :=
    matchShape?_eq_some_iff.mp hfound
  · obtain ⟨hgroups, hlhs, hrhs⟩ := splitGrouped?_eq_some_iff_text.mp hsplit
    have hinner := splitBinary?_signs (splitBinary?_grouped hlhs hrhs split.op) (takeUnary text).1
    rw [hgroups] at hwhole
    exact (congrArg splitBinary? hwhole).symm.trans hinner
  · cases hshape
  · cases hshape

end Split

/-- Whether a text means the same in parentheses behind some signs as it does by itself. -/
inductive KeepsMeaning : List UnaryOperator → List Char → Prop
  /-- Its operands stay what they are, and signs are lost with the right operand of a bitwise or. -/
  | bare {signs : List UnaryOperator} {text : List Char} {found : ShapeMatch}
      (hfound : matchShape? text = some found) (hshape : found.shape = .bare)
      (hsigns : signs = [] ∨ found.op.operator = .bitOr) : KeepsMeaning signs text
  /-- The left operand of a bitwise or keeps its meaning behind the signs of the text. -/
  | left {signs : List UnaryOperator} {text : List Char} {found : ShapeMatch}
      (hfound : matchShape? text = some found) (hshape : found.shape = .grouped)
      (hop : found.op.operator = .bitOr) (hlhs : KeepsMeaning found.unary found.lhs) :
      KeepsMeaning signs text
  /-- Both operands keep their meaning, the left one behind the signs of the text. -/
  | node {text : List Char} {found : ShapeMatch} (hfound : matchShape? text = some found)
      (hshape : found.shape = .grouped) (hop : found.op.operator ≠ .bitOr)
      (hlhs : KeepsMeaning found.unary found.lhs) (hrhs : KeepsMeaning [] found.rhs) :
      KeepsMeaning found.unary text

/-- Signs in front of an operator, and its operands, are seen from what they apply to. -/
theorem Grouping.signed_binary_inj {signs others : List UnaryOperator} {a b c d : Grouping}
    {op : Operator} (h : signed signs (binary a op b) = signed others (binary c op d)) :
    signs = others ∧ a = c ∧ b = d := by
  induction signs generalizing others with
  | nil =>
    cases others with
    | nil => exact ⟨rfl, (Grouping.binary.inj h).1, (Grouping.binary.inj h).2.2⟩
    | cons => cases h
  | cons sign signs ih =>
    cases others with
    | nil => cases h
    | cons =>
      obtain ⟨hsign, hinner⟩ := Grouping.unary.inj h
      obtain ⟨hsigns, hoperands⟩ := ih hinner
      exact ⟨by rw [hsign, hsigns], hoperands⟩

namespace Expr

variable {expr other lhs rhs : Expr} {unary : List UnaryOperator}

/-- A text is read as one expression. -/
theorem Reads.unique (h : Reads text expr) (hother : Reads text other) : other = expr := by
  have hsame := (parseChars_eq_ok_iff.mpr hother).symm.trans (parseChars_eq_ok_iff.mpr h)
  exact Except.ok.inj hsame

/-- A text with a shape is read as its left operand if this is that of a bitwise or, and otherwise
as both operands with the operator between them. -/
theorem reads_iff_of_matchShape? (hfound : matchShape? text = some found) :
    Reads text expr ↔
      (found.op.operator = .bitOr ∧ ∃ lhs, Reads found.lhs lhs ∧ expr = lhs.asOperand) ∨
        found.op.operator ≠ .bitOr ∧ ∃ lhs rhs, Reads found.lhs lhs ∧ Reads found.rhs rhs ∧
          expr = withUnary found.unary (.binary lhs.asOperand found.op.operator rhs.asOperand) := by
  constructor
  · intro h
    cases h with
    | leaf hleaf =>
      rw [isCompound_of_matchShape? hfound] at hleaf
      cases hleaf
    | left hsame hop hlhs =>
      cases hfound.symm.trans hsame
      exact .inl ⟨hop, _, hlhs, rfl⟩
    | node hsame hop hlhs hrhs =>
      cases hfound.symm.trans hsame
      exact .inr ⟨hop, _, _, hlhs, hrhs, rfl⟩
  · rintro (⟨hop, lhs, hlhs, rfl⟩ | ⟨hop, lhs, rhs, hlhs, hrhs, rfl⟩)
    · exact .left hfound hop hlhs
    · exact .node hfound hop hlhs hrhs

/-- In parentheses that a text is not split in, nothing is read. -/
theorem not_reads_signs_grouped (htext : balanced text = true) (hsplit : splitBinary? text = none) :
    ¬Reads (signs.map UnaryOperator.char ++ grouped text) other := by
  have hnone : matchShape? (signs.map UnaryOperator.char ++ grouped text) = none := by
    rw [matchShape?_signs_grouped htext, hsplit]
    rfl
  have hcompound : isCompound (signs.map UnaryOperator.char ++ grouped text) = true :=
    isCompound_iff.mpr (.inl (by simp [grouped]))
  intro h
  cases h with
  | leaf hleaf =>
    rw [hcompound] at hleaf
    cases hleaf
  | left hfound => cases hnone.symm.trans hfound
  | node hfound => cases hnone.symm.trans hfound

/-- Whether a text is read with the same operands and operators in parentheses behind some signs as
by itself. -/
def MeansTheSame (signs : List UnaryOperator) (text : List Char) (expr : Expr) : Prop :=
  ∃ other, Reads (signs.map UnaryOperator.char ++ grouped text) other ∧
    other.grouping = expr.grouping

/-- A text that means the same in parentheses has an operator outside its own. -/
theorem MeansTheSame.exists_splitBinary? (h : MeansTheSame signs text expr)
    (htext : balanced text = true) : ∃ split, splitBinary? text = some split := by
  obtain ⟨other, hother, -⟩ := h
  refine Option.ne_none_iff_exists'.mp fun hnone => ?_
  exact not_reads_signs_grouped htext hnone hother

/-- A bitwise or means the same in parentheses only if the text in front of it means the same as its
left operand. -/
theorem MeansTheSame.exists_of_left (h : MeansTheSame signs text lhs.asOperand)
    (htext : balanced text = true) (hsplit : splitBinary? text = some split)
    (hop : split.op.operator = .bitOr) :
    ∃ other, Reads split.lhs other ∧ other.grouping = lhs.grouping := by
  obtain ⟨whole, hwhole, hsame⟩ := h
  have hfound := matchShape?_signs_grouped htext signs
  rw [hsplit] at hfound
  obtain ⟨-, other, hother, rfl⟩ | ⟨hnot, -⟩ := (reads_iff_of_matchShape? hfound).mp hwhole
  · rw [grouping_asOperand, grouping_asOperand] at hsame
    exact ⟨other, hother, hsame⟩
  · exact absurd hop hnot

/-- Any other text means the same in parentheses only if the texts beside its operator mean the same
as its operands, and the signs in front are those that it has itself. -/
theorem MeansTheSame.exists_of_node
    (h : MeansTheSame signs text
      (withUnary unary (.binary lhs.asOperand split.op.operator rhs.asOperand)))
    (htext : balanced text = true) (hsplit : splitBinary? text = some split)
    (hop : split.op.operator ≠ .bitOr) :
    signs = unary ∧ (∃ other, Reads split.lhs other ∧ other.grouping = lhs.grouping) ∧
      ∃ other, Reads split.rhs other ∧ other.grouping = rhs.grouping := by
  obtain ⟨whole, hwhole, hsame⟩ := h
  have hfound := matchShape?_signs_grouped htext signs
  rw [hsplit] at hfound
  obtain ⟨hor, -⟩ | ⟨-, left, right, hleft, hright, rfl⟩ :=
    (reads_iff_of_matchShape? hfound).mp hwhole
  · exact absurd hor hop
  · rw [grouping_withUnary, grouping_withUnary] at hsame
    obtain ⟨hsigns, hlhs, hrhs⟩ := Grouping.signed_binary_inj hsame
    simp only [grouping_asOperand] at hlhs hrhs
    exact ⟨hsigns, ⟨left, hleft, hlhs⟩, right, hright, hrhs⟩

/-- A text that means the same in parentheses keeps its meaning in them. -/
theorem Reads.keepsMeaning (h : Reads text expr) (hsame : MeansTheSame signs text expr) :
    KeepsMeaning signs text := by
  have htext := h.balanced
  obtain ⟨split, hsplit⟩ := hsame.exists_splitBinary? htext
  induction h generalizing signs split with
  | leaf hleaf =>
    have hnone := matchShape?_eq_none hleaf
    cases hsplit.symm.trans (splitBinary?_of_matchShape?_eq_none htext hnone)
  | @left text found lhs hfound hop hlhs ih =>
    cases hshape : found.shape with
    | bare => exact .bare hfound hshape (.inr hop)
    | parenthesized => cases hsplit.symm.trans (splitBinary?_of_parenthesized hfound hshape)
    | grouped =>
      have hinner := hsame.exists_of_left htext (splitBinary?_of_grouped hfound hshape) hop
      obtain ⟨inner, hinside⟩ := MeansTheSame.exists_splitBinary? hinner hlhs.balanced
      exact .left hfound hshape hop (ih hinner hlhs.balanced inner hinside)
  | @node text found lhs rhs hfound hop hlhs hrhs ihl ihr =>
    cases hshape : found.shape with
    | bare =>
      obtain ⟨hbare, hunary⟩ := splitBinary?_of_bare hfound hshape
      rw [hunary] at hsame
      exact .bare hfound hshape (.inl (hsame.exists_of_node htext hbare hop).1)
    | parenthesized => cases hsplit.symm.trans (splitBinary?_of_parenthesized hfound hshape)
    | grouped =>
      obtain ⟨rfl, hleft, hright⟩ :=
        hsame.exists_of_node htext (splitBinary?_of_grouped hfound hshape) hop
      have hgroup : MeansTheSame [] found.rhs rhs := hright
      obtain ⟨left, hleftsplit⟩ := MeansTheSame.exists_splitBinary? hleft hlhs.balanced
      obtain ⟨right, hrightsplit⟩ := hgroup.exists_splitBinary? hrhs.balanced
      exact .node hfound hshape hop (ihl hleft hlhs.balanced left hleftsplit)
        (ihr hgroup hrhs.balanced right hrightsplit)

/-- A text that keeps its meaning in parentheses is read in them as the same expression. -/
theorem Reads.signs_grouped (h : Reads text expr) (hkeeps : KeepsMeaning signs text) :
    Reads (signs.map UnaryOperator.char ++ grouped text) expr := by
  have htext := h.balanced
  have hgroup := matchShape?_signs_grouped htext signs
  induction hkeeps generalizing expr with
  | bare hfound hshape hsigns =>
    obtain ⟨hsplit, hunary⟩ := splitBinary?_of_bare hfound hshape
    rw [hsplit] at hgroup
    refine (reads_iff_of_matchShape? hgroup).mpr ?_
    rcases (reads_iff_of_matchShape? hfound).mp h with hor | ⟨hop, lhs, rhs, hlhs, hrhs, rfl⟩
    · exact .inl hor
    · rw [hunary, hsigns.resolve_right hop]
      exact .inr ⟨hop, lhs, rhs, hlhs, hrhs, rfl⟩
  | left hfound hshape hop _ ih =>
    rw [splitBinary?_of_grouped hfound hshape] at hgroup
    refine (reads_iff_of_matchShape? hgroup).mpr (.inl ⟨hop, ?_⟩)
    rcases (reads_iff_of_matchShape? hfound).mp h with ⟨-, lhs, hlhs, rfl⟩ | ⟨hnot, -⟩
    · exact ⟨lhs, ih hlhs hlhs.balanced (matchShape?_signs_grouped hlhs.balanced _), rfl⟩
    · exact absurd hop hnot
  | node hfound hshape hop _ _ ihl ihr =>
    rw [splitBinary?_of_grouped hfound hshape] at hgroup
    refine (reads_iff_of_matchShape? hgroup).mpr (.inr ⟨hop, ?_⟩)
    rcases (reads_iff_of_matchShape? hfound).mp h with ⟨hor, -⟩ | ⟨-, lhs, rhs, hlhs, hrhs, rfl⟩
    · exact absurd hor hop
    · exact ⟨lhs, rhs, ihl hlhs hlhs.balanced (matchShape?_signs_grouped hlhs.balanced _),
        ihr hrhs hrhs.balanced (matchShape?_signs_grouped hrhs.balanced _), rfl⟩

/-- A text means the same in parentheses exactly if it keeps its meaning. -/
theorem Reads.meansTheSame_iff (h : Reads text expr) :
    MeansTheSame signs text expr ↔ KeepsMeaning signs text :=
  ⟨h.keepsMeaning, fun hkeeps => ⟨expr, h.signs_grouped hkeeps, rfl⟩⟩

/-- A text without an operator outside parentheses cannot be read in another pair of them. -/
theorem parseChars_grouped_of_splitBinary?_eq_none (htext : NifBindings.balanced text = true)
    (hsplit : splitBinary? text = none) :
    parseChars (grouped text) = .error (.expression (String.ofList (grouped text))) := by
  have hnone : matchShape? (grouped text) = none := by
    have hgroup := matchShape?_signs_grouped htext []
    rwa [hsplit] at hgroup
  have hcompound : isCompound (grouped text) = true :=
    isCompound_iff.mpr (.inl List.mem_cons_self)
  rw [parseChars_of_eq_none hnone, if_pos hcompound]

/-- A text that is read by itself is read with the same operands and operators in parentheses
exactly if it keeps its meaning, and then as the same expression. A text without a shape, and one
that stands in parentheses already, is rejected in them. -/
theorem parse_parenthesized_iff {text : String} {expr : Expr} (hparse : parse text = .ok expr) :
    ((∃ other, parse ("(" ++ text ++ ")") = .ok other ∧ other.grouping = expr.grouping) ↔
      KeepsMeaning [] text.toList) ∧
    (KeepsMeaning [] text.toList → parse ("(" ++ text ++ ")") = .ok expr) ∧
    ((∀ found, matchShape? text.toList = some found → found.shape = .parenthesized) →
      parse ("(" ++ text ++ ")") = .error (.expression ("(" ++ text ++ ")"))) := by
  have hreads := parseChars_eq_ok_iff.mp hparse
  have hwhole : ("(" ++ text ++ ")").toList = grouped text.toList := by simp [grouped]
  simp only [parse, hwhole, parseChars_eq_ok_iff]
  have hsame : MeansTheSame [] text.toList expr ↔ KeepsMeaning [] text.toList :=
    hreads.meansTheSame_iff
  refine ⟨hsame, hreads.signs_grouped, fun hshape => ?_⟩
  have hsplit : splitBinary? text.toList = none := by
    cases hfound : matchShape? text.toList with
    | none => exact splitBinary?_of_matchShape?_eq_none hreads.balanced hfound
    | some found => exact splitBinary?_of_parenthesized hfound (hshape found hfound)
  rw [parseChars_grouped_of_splitBinary?_eq_none hreads.balanced hsplit, ← hwhole,
    String.ofList_toList]

/-- A product of two sums may stand in parentheses. -/
theorem parse_parenthesized_product :
    ∃ expr, parse "(A #ADD# B) #MUL# (C #SUB# D)" = .ok expr ∧
      parse "((A #ADD# B) #MUL# (C #SUB# D))" = .ok expr := by
  have houter : matchShape? "(A #ADD# B) #MUL# (C #SUB# D)".toList =
      some ⟨.grouped, [], "A #ADD# B".toList, .symbolic .mul, "C #SUB# D".toList⟩ := by
    decide +kernel
  have hlhs : matchShape? "A #ADD# B".toList =
      some ⟨.bare, [], "A".toList, .symbolic .add, "B".toList⟩ := by
    decide +kernel
  have hrhs : matchShape? "C #SUB# D".toList =
      some ⟨.bare, [], "C".toList, .symbolic .sub, "D".toList⟩ := by
    decide +kernel
  have hparse : parse "(A #ADD# B) #MUL# (C #SUB# D)" = .ok _ :=
    parseChars_eq_ok_iff.mpr (.node houter (by decide)
      (.node hlhs (by decide) (.leaf (by decide +kernel)) (.leaf (by decide +kernel)))
      (.node hrhs (by decide) (.leaf (by decide +kernel)) (.leaf (by decide +kernel))))
  exact ⟨_, hparse, (parse_parenthesized_iff hparse).2.1
    (.node houter rfl (by decide) (.bare hlhs rfl (.inl rfl)) (.bare hrhs rfl (.inl rfl)))⟩

/-- A sum of names in parentheses of their own and a single name are rejected in parentheses, and
the sign in front of a sum of two groups goes to the left one there. -/
theorem not_parse_parenthesized_groups :
    (∃ expr, parse "(fizz) #ADD# (buzz)" = .ok expr ∧
      parse "((fizz) #ADD# (buzz))" = .error (.expression "(fizz)")) ∧
    (∃ expr, parse "Has Normals" = .ok expr ∧
      parse "(Has Normals)" = .error (.expression "(Has Normals)")) ∧
    ∃ expr other, parse "!(A #ADD# B) #ADD# (C #ADD# D)" = .ok expr ∧
      parse "(!(A #ADD# B) #ADD# (C #ADD# D))" = .ok other ∧
      expr.render = "!((a + b) + (c + d))" ∧ other.render = "(!(a + b)) + (c + d)" ∧
      other.grouping ≠ expr.grouping := by
  refine ⟨?_, ?_, ?_⟩
  · have hgroups : matchShape? "(fizz) #ADD# (buzz)".toList =
        some ⟨.grouped, [], "fizz".toList, .symbolic .add, "buzz".toList⟩ := by
      decide +kernel
    have houter : matchShape? "((fizz) #ADD# (buzz))".toList =
        some ⟨.parenthesized, [], "(fizz)".toList, .symbolic .add, "(buzz)".toList⟩ := by
      decide +kernel
    have hname : Reads "fizz".toList _ := .leaf (by decide +kernel)
    have hleft : parseChars "(fizz)".toList = .error (.expression "(fizz)") :=
      parseChars_grouped_of_splitBinary?_eq_none hname.balanced (by decide +kernel)
    refine ⟨_, parseChars_eq_ok_iff.mpr
      (.node hgroups (by decide) hname (.leaf (by decide +kernel))), ?_⟩
    rw [parse, parseChars_of_matchShape? houter, hleft]
    rfl
  · have hname : Reads "Has Normals".toList _ := .leaf (by decide +kernel)
    refine ⟨_, parseChars_eq_ok_iff.mpr hname, ?_⟩
    exact parseChars_grouped_of_splitBinary?_eq_none hname.balanced (by decide +kernel)
  · have hwhole : matchShape? "!(A #ADD# B) #ADD# (C #ADD# D)".toList =
        some ⟨.grouped, [.not], "A #ADD# B".toList, .symbolic .add, "C #ADD# D".toList⟩ := by
      decide +kernel
    have houter : matchShape? "(!(A #ADD# B) #ADD# (C #ADD# D))".toList =
        some ⟨.parenthesized, [], "!(A #ADD# B)".toList, .symbolic .add,
          "(C #ADD# D)".toList⟩ := by
      decide +kernel
    have hlhs : matchShape? "A #ADD# B".toList =
        some ⟨.bare, [], "A".toList, .symbolic .add, "B".toList⟩ := by
      decide +kernel
    have hrhs : matchShape? "C #ADD# D".toList =
        some ⟨.bare, [], "C".toList, .symbolic .add, "D".toList⟩ := by
      decide +kernel
    have hleft : matchShape? "!(A #ADD# B)".toList =
        some ⟨.parenthesized, [.not], "A".toList, .symbolic .add, "B".toList⟩ := by
      decide +kernel
    have hright : matchShape? "(C #ADD# D)".toList =
        some ⟨.parenthesized, [], "C".toList, .symbolic .add, "D".toList⟩ := by
      decide +kernel
    have ha : Reads "A".toList _ := .leaf (by decide +kernel)
    have hb : Reads "B".toList _ := .leaf (by decide +kernel)
    have hc : Reads "C".toList _ := .leaf (by decide +kernel)
    have hd : Reads "D".toList _ := .leaf (by decide +kernel)
    exact ⟨_, _,
      parseChars_eq_ok_iff.mpr
        (.node hwhole (by decide) (.node hlhs (by decide) ha hb) (.node hrhs (by decide) hc hd)),
      parseChars_eq_ok_iff.mpr
        (.node houter (by decide) (.node hleft (by decide) ha hb) (.node hright (by decide) hc hd)),
      by decide +kernel, by decide +kernel, by decide +kernel⟩

end Expr

end NifBindings
