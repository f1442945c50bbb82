import NifBindings.Expr.Parse
import NifBindings.Proofs.Expr.Cut

/-!
# Shapes and parses

The three shapes are taken apart here, each into the cut it rests on. Reading an expression is then
one relation between texts and expressions with a case for a leaf, for a bitwise or, and for every
other operator, so that facts about all expressions are shown by induction on it.
-/

namespace NifBindings

/-- A text is one group exactly if parentheses stand around a balanced text. -/
theorem unwrapGroup?_eq_some_iff {text inside : List Char} :
    unwrapGroup? text = some inside ↔
      text = '(' :: (inside ++ [')']) ∧ balanced inside = true := by
  constructor
  · intro h
    unfold unwrapGroup? at h
    split at h
    next rest =>
      split at h
      next hrest =>
        cases h
        obtain ⟨front, hfront⟩ := List.getLast?_eq_some_iff.mp hrest.1
        refine ⟨?_, hrest.2⟩
        rw [hfront, List.dropLast_concat]
      next => cases h
    next => cases h
  · rintro ⟨rfl, hbalanced⟩
    simp [unwrapGroup?, hbalanced]

/-- Both operands of a text that has them in parentheses come from its last cut. -/
theorem splitGrouped?_eq_some_iff {text : List Char} {split : Split} :
    splitGrouped? text = some split ↔
      ∃ outer, splitBinary? text = some outer ∧ unwrapGroup? outer.lhs = some split.lhs ∧
        outer.op = split.op ∧ unwrapGroup? outer.rhs = some split.rhs := by
  simp only [splitGrouped?, Option.bind_eq_bind, Option.bind_eq_some_iff, Option.some.injEq]
  constructor
  · rintro ⟨outer, houter, lhs, hlhs, rhs, hrhs, rfl⟩
    exact ⟨outer, houter, hlhs, rfl, hrhs⟩
  · rintro ⟨outer, houter, hlhs, hop, hrhs⟩
    exact ⟨outer, houter, split.lhs, hlhs, split.rhs, hrhs, by rw [hop]⟩

/-- The operands of a text in parentheses come from the last cut inside them. -/
theorem splitParenthesized?_eq_some_iff {text : List Char} {split : Split} :
    splitParenthesized? text = some split ↔
      ∃ inside, unwrapGroup? text = some inside ∧ splitBinary? inside = some split :=
  Option.bind_eq_some_iff

/-- The shapes are tried in order: grouped and parenthesized behind the unary operators, and bare on
the whole text. -/
theorem matchShape?_eq_some_iff {text : List Char} {found : ShapeMatch} :
    matchShape? text = some found ↔ balanced text = true ∧
      ((∃ split, splitGrouped? (takeUnary text).2 = some split ∧
          found = split.toMatch .grouped (takeUnary text).1) ∨
        (splitGrouped? (takeUnary text).2 = none ∧
          ∃ split, splitParenthesized? (takeUnary text).2 = some split ∧
            found = split.toMatch .parenthesized (takeUnary text).1) ∨
        (splitGrouped? (takeUnary text).2 = none ∧ splitParenthesized? (takeUnary text).2 = none ∧
          ∃ split, splitBinary? text = some split ∧ found = split.toMatch .bare [])) := by
  unfold matchShape?
  by_cases hbalanced : balanced text = true
  · rw [if_pos hbalanced]
    dsimp only
    cases hgrouped : splitGrouped? (takeUnary text).2 with
    | some split => simp [hbalanced, eq_comm]
    | none =>
      cases hparenthesized : splitParenthesized? (takeUnary text).2 with
      | some split => simp [hbalanced, eq_comm]
      | none => simp [hbalanced, Option.map_eq_some_iff, eq_comm (a := found)]
  · simp [hbalanced]

/-- Unary operators and the rest make up a text. -/
theorem takeUnary_append (text : List Char) :
    (takeUnary text).1.map UnaryOperator.char ++ (takeUnary text).2 = text := by
  induction text with
  | nil => rfl
  | cons c rest ih =>
    rw [takeUnary]
    split
    next op hop =>
      have hc : op.char = c := by
        unfold UnaryOperator.ofChar? at hop
        split at hop
        next h => cases hop; exact h.symm
        · split at hop
          next h => cases hop; exact h.symm
          · split at hop
            next h => cases hop; exact h.symm
            · cases hop
      simp [hc, ih]
    next => rfl

/-- Unary operators are taken off the front of a text one by one. -/
theorem takeUnary_map_append (ops : List UnaryOperator) (text : List Char) :
    takeUnary (ops.map UnaryOperator.char ++ text) =
      (ops ++ (takeUnary text).1, (takeUnary text).2) := by
  induction ops with
  | nil => rfl
  | cons op ops ih =>
    have hop : UnaryOperator.ofChar? op.char = some op := by cases op <;> rfl
    rw [List.map_cons, List.cons_append, takeUnary, hop, ih]
    rfl

/-- The parts of a cut stand in the text. -/
theorem isInfix_of_splitBinary? {text : List Char} {split : Split}
    (h : splitBinary? text = some split) :
    split.lhs <:+: text ∧ split.op.text.toList <:+: text ∧ split.rhs <:+: text := by
  obtain ⟨hcut, _⟩ := splitBinary?_eq_some_iff.mp h
  refine ⟨⟨[], ' ' :: (split.op.text.toList ++ ' ' :: split.rhs), ?_⟩,
    ⟨split.lhs ++ [' '], ' ' :: split.rhs, ?_⟩,
    ⟨split.lhs ++ ' ' :: (split.op.text.toList ++ [' ']), [], ?_⟩⟩
  all_goals simpa using hcut.text_eq.symm

/-- The inside of a group stands in the text. -/
theorem isInfix_of_unwrapGroup? {text inside : List Char} (h : unwrapGroup? text = some inside) :
    inside <:+: text :=
  ⟨['('], [')'], by simp [(unwrapGroup?_eq_some_iff.mp h).1]⟩

/-- Both operands of a binary expression and its operator stand in the text. -/
theorem isInfix_of_matchShape? {text : List Char} {found : ShapeMatch}
    (h : matchShape? text = some found) :
    found.lhs <:+: text ∧ found.op.text.toList <:+: text ∧ found.rhs <:+: text := by
  have hrest : (takeUnary text).2 <:+: text :=
    List.IsSuffix.isInfix ⟨_, takeUnary_append text⟩
  obtain ⟨_, ⟨split, hsplit, rfl⟩ | ⟨_, split, hsplit, rfl⟩ | ⟨_, _, split, hsplit, rfl⟩⟩ :=
    matchShape?_eq_some_iff.mp h
  · obtain ⟨outer, houter, hlhs, hop, hrhs⟩ := splitGrouped?_eq_some_iff.mp hsplit
    obtain ⟨hlhs', hop', hrhs'⟩ := isInfix_of_splitBinary? houter
    exact ⟨((isInfix_of_unwrapGroup? hlhs).trans hlhs').trans hrest,
      (hop ▸ hop' : split.op.text.toList <:+: _).trans hrest,
      ((isInfix_of_unwrapGroup? hrhs).trans hrhs').trans hrest⟩
  · obtain ⟨inside, hinside, hsplit⟩ := splitParenthesized?_eq_some_iff.mp hsplit
    have hin := (isInfix_of_unwrapGroup? hinside).trans hrest
    obtain ⟨hlhs, hop, hrhs⟩ := isInfix_of_splitBinary? hsplit
    exact ⟨hlhs.trans hin, hop.trans hin, hrhs.trans hin⟩
  · exact isInfix_of_splitBinary? hsplit

/-- A text is compound exactly if a parenthesis or the spelling of an operator stands in it. -/
theorem isCompound_iff {text : List Char} :
    isCompound text = true ↔
      '(' ∈ text ∨ ')' ∈ text ∨ ∃ op : Spelling, op.text.toList <:+: text := by
  have hoccurs (word : List Char) : Text.occursIn word text = true ↔ word <:+: text := by
    rw [Text.occursIn_iff]
    exact ⟨fun ⟨before, behind, h⟩ => ⟨before, behind, h.symm⟩,
      fun ⟨before, behind, h⟩ => ⟨before, behind, h.symm⟩⟩
  simp only [isCompound, Bool.or_eq_true, List.contains_iff_mem, List.any_eq_true, hoccurs,
    or_assoc]
  constructor
  · rintro (h | h | ⟨op, _, h⟩)
    · exact .inl h
    · exact .inr (.inl h)
    · exact .inr (.inr ⟨op, h⟩)
  · rintro (h | h | ⟨op, h⟩)
    · exact .inl h
    · exact .inr (.inl h)
    · exact .inr (.inr ⟨op, op.mem_all, h⟩)

/-- A text that is not compound has neither a parenthesis nor the spelling of an operator. -/
theorem isCompound_eq_false_iff {text : List Char} :
    isCompound text = false ↔
      '(' ∉ text ∧ ')' ∉ text ∧ ∀ op : Spelling, ¬op.text.toList <:+: text := by
  rw [← Bool.not_eq_true, isCompound_iff, not_or, not_or, not_exists]

/-- A text inside a text that is not compound is not compound either. -/
theorem isCompound_of_isInfix {a b : List Char} (hpart : a <:+: b) (ha : isCompound a = true) :
    isCompound b = true := by
  rw [isCompound_iff] at ha ⊢
  rcases ha with h | h | ⟨op, h⟩
  · exact .inl (hpart.subset h)
  · exact .inr (.inl (hpart.subset h))
  · exact .inr (.inr ⟨op, h.trans hpart⟩)

/-- A text with a shape is compound. -/
theorem isCompound_of_matchShape? {text : List Char} {found : ShapeMatch}
    (h : matchShape? text = some found) : isCompound text = true :=
  isCompound_iff.mpr (.inr (.inr ⟨found.op, (isInfix_of_matchShape? h).2.1⟩))

/-- A text that is not compound has no shape. -/
theorem matchShape?_eq_none {text : List Char} (hleaf : isCompound text = false) :
    matchShape? text = none := by
  refine Option.eq_none_iff_forall_ne_some.mpr fun found hfound => ?_
  rw [isCompound_of_matchShape? hfound] at hleaf
  cases hleaf

namespace Expr

/-- How the text of an expression is read: as a leaf, as the left operand of a bitwise or, or as an
operator with both of its operands. -/
inductive Reads : List Char → Expr → Prop
  | leaf {text : List Char} (hleaf : isCompound text = false) :
      Reads text (leaf (String.ofList text))
  | left {text : List Char} {found : ShapeMatch} {lhs : Expr}
      (hfound : matchShape? text = some found) (hop : found.op.operator = .bitOr)
      (hlhs : Reads found.lhs lhs) : Reads text lhs.asOperand
  | node {text : List Char} {found : ShapeMatch} {lhs rhs : Expr}
      (hfound : matchShape? text = some found) (hop : found.op.operator ≠ .bitOr)
      (hlhs : Reads found.lhs lhs) (hrhs : Reads found.rhs rhs) :
      Reads text
        (withUnary found.unary (.binary lhs.asOperand found.op.operator rhs.asOperand))

/-- The reader of a compound text with a shape reads its operands. -/
theorem parseChars_of_matchShape? {text : List Char} {found : ShapeMatch}
    (hfound : matchShape? text = some found) :
    parseChars text = (do
      let lhs ← parseChars found.lhs
      if found.op.operator = .bitOr then
        .ok lhs.asOperand
      else
        let rhs ← parseChars found.rhs
        .ok (withUnary found.unary
          (.binary lhs.asOperand found.op.operator rhs.asOperand))) := by
  rw [parseChars, if_pos (isCompound_of_matchShape? hfound)]
  split
  next h => rw [hfound] at h; cases h
  next other h =>
    rw [hfound] at h
    cases h
    rfl

/-- The reader yields an expression exactly if the text reads as that expression. -/
theorem parseChars_eq_ok_iff {text : List Char} {expr : Expr} :
    parseChars text = .ok expr ↔ Reads text expr := by
  constructor
  · induction hlength : text.length using Nat.strongRecOn generalizing text expr with
    | _ length ih =>
      subst hlength
      intro h
      cases hfound : matchShape? text with
      | none =>
        rw [parseChars] at h
        split at h
        · split at h
          · cases h
          next other hother => rw [hfound] at hother; cases hother
        next hleaf =>
          cases h
          exact .leaf (Bool.not_eq_true _ ▸ hleaf)
      | some found =>
        rw [parseChars_of_matchShape? hfound] at h
        obtain ⟨hltlhs, hltrhs⟩ := length_of_matchShape? hfound
        cases hlhs : parseChars found.lhs with
        | error e => simp [hlhs, Bind.bind, Except.bind] at h
        | ok lhs =>
          have hreadlhs := ih _ hltlhs rfl hlhs
          by_cases hop : found.op.operator = .bitOr
          · simp only [hlhs, Bind.bind, Except.bind, if_pos hop, Except.ok.injEq] at h
            exact h ▸ .left hfound hop hreadlhs
          · cases hrhs : parseChars found.rhs with
            | error e => simp [hlhs, hrhs, hop, Bind.bind, Except.bind] at h
            | ok rhs =>
              simp only [hlhs, hrhs, Bind.bind, Except.bind, if_neg hop, Except.ok.injEq] at h
              exact h ▸ .node hfound hop hreadlhs (ih _ hltrhs rfl hrhs)
  · intro h
    induction h with
    | leaf hleaf => rw [parseChars, if_neg (by simp [hleaf])]
    | left hfound hop _ ih =>
      rw [parseChars_of_matchShape? hfound]
      simp [ih, hop, Bind.bind, Except.bind]
    | node hfound hop _ _ ihlhs ihrhs =>
      rw [parseChars_of_matchShape? hfound]
      simp [ihlhs, ihrhs, hop, Bind.bind, Except.bind]

/-- The parentheses of every text that can be read fit. -/
theorem Reads.balanced {text : List Char} {expr : Expr} (h : Reads text expr) :
    NifBindings.balanced text = true := by
  cases h with
  | leaf hleaf =>
    obtain ⟨hopen, hclose, -⟩ := isCompound_eq_false_iff.mp hleaf
    exact balanced_of_not_mem hopen hclose
  | left hfound => exact (matchShape?_eq_some_iff.mp hfound).1
  | node hfound => exact (matchShape?_eq_some_iff.mp hfound).1

end Expr

end NifBindings
