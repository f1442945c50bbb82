import Mathlib.Data.List.Basic
import Mathlib.Logic.Relation
import NifBindings.Proofs.Expr.Form

/-!
# Rejected expressions

A text is read through its operands, through theirs, and so on down to texts without a shape. It is
rejected exactly if one of these texts is compound and has no shape, and the first one of that kind
from left to right is the error. Each of them stands in the text. Operands are shorter than what
they are operands of, so that reading ends, after no more texts than there are characters.
-/

namespace NifBindings

/-- The operands of a text that are read. Of a bitwise or the right one is not. -/
def operandTexts (text : List Char) : List (List Char) :=
  match matchShape? text with
  | none => []
  | some found =>
    if found.op.operator = .bitOr then [found.lhs] else [found.lhs, found.rhs]

/-- A text with a shape has its operands. -/
theorem operandTexts_of_matchShape? {text : List Char} {found : ShapeMatch}
    (hfound : matchShape? text = some found) :
    operandTexts text =
      if found.op.operator = .bitOr then [found.lhs] else [found.lhs, found.rhs] := by
  rw [operandTexts, hfound]

/-- A text without a shape has no operands. -/
theorem operandTexts_of_eq_none {text : List Char} (hnone : matchShape? text = none) :
    operandTexts text = [] := by
  rw [operandTexts, hnone]

/-- Every operand that is read is one of the two that the shape of the text gives. -/
theorem exists_of_mem_operandTexts {text operand : List Char} (h : operand ∈ operandTexts text) :
    ∃ found, matchShape? text = some found ∧ (operand = found.lhs ∨ operand = found.rhs) := by
  cases hfound : matchShape? text with
  | none =>
    rw [operandTexts_of_eq_none hfound] at h
    cases h
  | some found =>
    rw [operandTexts_of_matchShape? hfound] at h
    refine ⟨found, rfl, ?_⟩
    split at h
    · exact .inl (List.mem_singleton.mp h)
    · exact List.mem_pair.mp h

/-- Every operand is shorter than the text. -/
theorem length_lt_of_mem_operandTexts {text operand : List Char} (h : operand ∈ operandTexts text) :
    operand.length < text.length := by
  obtain ⟨found, hfound, hoperand⟩ := exists_of_mem_operandTexts h
  obtain ⟨hlhs, hrhs⟩ := length_of_matchShape? hfound
  rcases hoperand with rfl | rfl
  · exact hlhs
  · exact hrhs

/-- Every operand stands in the text. -/
theorem isInfix_of_mem_operandTexts {text operand : List Char} (h : operand ∈ operandTexts text) :
    operand <:+: text := by
  obtain ⟨found, hfound, hoperand⟩ := exists_of_mem_operandTexts h
  obtain ⟨hlhs, -, hrhs⟩ := isInfix_of_matchShape? hfound
  rcases hoperand with rfl | rfl
  · exact hlhs
  · exact hrhs

/-- Going over to operands ends. -/
theorem wellFounded_operandTexts :
    WellFounded fun operand text : List Char => operand ∈ operandTexts text :=
  Subrelation.wf length_lt_of_mem_operandTexts (measure List.length).wf

/-- The texts that a text is read through, in the order of reading: the text itself, and then for
each of its operands from left to right the texts that this is read through. -/
def readTexts (text : List Char) : List (List Char) :=
  text :: (operandTexts text).attach.flatMap fun operand => readTexts operand.val
termination_by text.length
decreasing_by exact length_lt_of_mem_operandTexts operand.property

theorem readTexts_eq (text : List Char) :
    readTexts text = text :: (operandTexts text).flatMap readTexts := by
  rw [readTexts]
  simp

/-- A text is read through what is reached from it by going over to operands. -/
theorem mem_readTexts_iff {text part : List Char} :
    part ∈ readTexts text ↔
      Relation.ReflTransGen (fun whole operand => operand ∈ operandTexts whole) text part := by
  induction text using wellFounded_operandTexts.induction with
  | _ text ih =>
    rw [readTexts_eq, List.mem_cons, List.mem_flatMap, Relation.ReflTransGen.cases_head_iff]
    refine or_congr eq_comm ⟨?_, ?_⟩
    · rintro ⟨operand, hoperand, hpart⟩
      exact ⟨operand, hoperand, (ih operand hoperand).mp hpart⟩
    · rintro ⟨operand, hoperand, hpart⟩
      exact ⟨operand, hoperand, (ih operand hoperand).mpr hpart⟩

/-- Whatever a text is read through stands in it. -/
theorem isInfix_of_mem_readTexts {text part : List Char} (h : part ∈ readTexts text) :
    part <:+: text := by
  induction mem_readTexts_iff.mp h with
  | refl => exact List.infix_rfl
  | tail hreached hoperand ih =>
    exact (isInfix_of_mem_operandTexts hoperand).trans (ih (mem_readTexts_iff.mpr hreached))

/-- No spelling of an operator is empty. -/
theorem Spelling.length_text_pos (op : Spelling) : 0 < op.text.toList.length := by
  cases op with
  | symbolic op => cases op <;> decide
  | native op => cases op <;> decide

/-- Both operands of a text and the operator with its two spaces fit into it. -/
theorem length_add_le_of_matchShape? {text : List Char} {found : ShapeMatch}
    (h : matchShape? text = some found) :
    found.lhs.length + found.rhs.length + 3 ≤ text.length := by
  have hop := found.op.length_text_pos
  have htext := congrArg List.length (isForm_of_matchShape? h).1.text_eq
  unfold ShapeMatch.text at htext
  split at htext
  all_goals
    simp only [ShapeMatch.split, Split.text, grouped, List.length_append, List.length_cons,
      List.length_map, List.length_nil] at htext
    omega

/-- A text is read through no more texts than it has characters, and one more. -/
theorem length_readTexts_le (text : List Char) : (readTexts text).length ≤ text.length + 1 := by
  induction text using wellFounded_operandTexts.induction with
  | _ text ih =>
    rw [readTexts_eq]
    cases hfound : matchShape? text with
    | none => simp [operandTexts_of_eq_none hfound]
    | some found =>
      have hlength := length_add_le_of_matchShape? hfound
      have hoperands := operandTexts_of_matchShape? hfound
      have hlhs := ih found.lhs (by rw [hoperands]; split <;> simp)
      rw [hoperands]
      split
      next =>
        simp
        omega
      next hop =>
        have hrhs := ih found.rhs (by rw [hoperands, if_neg hop]; simp)
        simp
        omega

/-- Whether a text holds a parenthesis or the spelling of an operator and yet has no shape. -/
def Shapeless (text : List Char) : Prop :=
  ('(' ∈ text ∨ ')' ∈ text ∨ ∃ op : Spelling, op.text.toList <:+: text) ∧ matchShape? text = none

theorem shapeless_iff {text : List Char} :
    Shapeless text ↔ isCompound text = true ∧ matchShape? text = none := by
  rw [Shapeless, isCompound_iff]

instance : DecidablePred Shapeless := fun _ =>
  decidable_of_iff' _ shapeless_iff

/-- The first compound text without a shape among those that a text is read through. -/
def firstShapeless? (text : List Char) : Option (List Char) :=
  (readTexts text).find? (Shapeless ·)

/-- A text without a shape is read through itself alone. -/
theorem firstShapeless?_of_eq_none {text : List Char} (hnone : matchShape? text = none) :
    firstShapeless? text = if isCompound text then some text else none := by
  have hiff : Shapeless text ↔ isCompound text = true := by simp [shapeless_iff, hnone]
  rw [firstShapeless?, readTexts_eq, operandTexts_of_eq_none hnone]
  by_cases hcompound : isCompound text = true
  · simp [hiff, hcompound]
  · simp [hiff, hcompound]

/-- A text with a shape is searched operand by operand. -/
theorem firstShapeless?_of_matchShape? {text : List Char} {found : ShapeMatch}
    (hfound : matchShape? text = some found) :
    firstShapeless? text = (operandTexts text).findSome? firstShapeless? := by
  have hshape : ¬Shapeless text := by simp [shapeless_iff, hfound]
  rw [firstShapeless?, readTexts_eq, List.find?_cons_of_neg (by simpa using hshape),
    List.find?_flatMap]
  rfl

namespace Expr

/-- Reading a text without a shape. -/
theorem parseChars_of_eq_none {text : List Char} (hnone : matchShape? text = none) :
    parseChars text =
      if isCompound text then .error (.expression (String.ofList text))
      else .ok (leaf (String.ofList text)) := by
  rw [parseChars]
  split
  · split
    next => rfl
    next found hfound => rw [hnone] at hfound; cases hfound
  · rfl

/-- A text is read as an expression exactly if no text that it is read through is compound without a
shape, and otherwise the first one that is ends the reading. -/
theorem parseChars_cases (text : List Char) :
    (∃ expr, firstShapeless? text = none ∧ parseChars text = .ok expr) ∨
      ∃ culprit, firstShapeless? text = some culprit ∧
        parseChars text = .error (.expression (String.ofList culprit)) := by
  induction text using wellFounded_operandTexts.induction with
  | _ text ih =>
    cases hfound : matchShape? text with
    | none =>
      rw [firstShapeless?_of_eq_none hfound, parseChars_of_eq_none hfound]
      by_cases hcompound : isCompound text = true
      · exact .inr ⟨text, by simp [hcompound]⟩
      · exact .inl ⟨leaf (String.ofList text), by simp [hcompound]⟩
    | some found =>
      have hoperands := operandTexts_of_matchShape? hfound
      rw [firstShapeless?_of_matchShape? hfound, parseChars_of_matchShape? hfound]
      by_cases hop : found.op.operator = .bitOr
      · rw [if_pos hop] at hoperands
        rcases ih found.lhs (by simp [hoperands]) with ⟨lhs, hfirst, hlhs⟩ | ⟨culprit, hfirst, hlhs⟩
        · exact .inl ⟨lhs.asOperand, by simp [hoperands, hfirst, hlhs, hop, Bind.bind, Except.bind]⟩
        · exact .inr ⟨culprit, by simp [hoperands, hfirst, hlhs, Bind.bind, Except.bind]⟩
      · rw [if_neg hop] at hoperands
        rcases ih found.lhs (by simp [hoperands]) with ⟨lhs, hfirst, hlhs⟩ | ⟨culprit, hfirst, hlhs⟩
        · rcases ih found.rhs (by simp [hoperands]) with
            ⟨rhs, hsecond, hrhs⟩ | ⟨culprit, hsecond, hrhs⟩
          · exact .inl ⟨withUnary found.unary
              (.binary lhs.asOperand found.op.operator rhs.asOperand), by
                simp [hoperands, hfirst, hsecond, hlhs, hrhs, hop, Bind.bind, Except.bind]⟩
          · exact .inr ⟨culprit, by
              simp [hoperands, hfirst, hsecond, hlhs, hrhs, hop, Bind.bind, Except.bind]⟩
        · exact .inr ⟨culprit, by simp [hoperands, hfirst, hlhs, Bind.bind, Except.bind]⟩

/-- The error of a text is its first compound text without a shape. -/
theorem parseChars_eq_error_iff {text : List Char} {error : InputError} :
    parseChars text = .error error ↔
      ∃ culprit, firstShapeless? text = some culprit ∧
        error = .expression (String.ofList culprit) := by
  rcases parseChars_cases text with ⟨expr, hfirst, hparse⟩ | ⟨culprit, hfirst, hparse⟩
  · simp [hfirst, hparse]
  · simp [hfirst, hparse, eq_comm]

/-- A text is rejected exactly if it is read through a compound text without a shape. -/
theorem exists_parseChars_eq_error_iff {text : List Char} :
    (∃ error, parseChars text = .error error) ↔ ∃ part ∈ readTexts text, Shapeless part := by
  have hsome : (firstShapeless? text).isSome = true ↔ ∃ part ∈ readTexts text, Shapeless part := by
    simp [firstShapeless?]
  rw [← hsome, Option.isSome_iff_exists]
  constructor
  · rintro ⟨error, herror⟩
    obtain ⟨culprit, hfirst, -⟩ := parseChars_eq_error_iff.mp herror
    exact ⟨culprit, hfirst⟩
  · rintro ⟨culprit, hfirst⟩
    exact ⟨_, parseChars_eq_error_iff.mpr ⟨culprit, hfirst, rfl⟩⟩

/-- A text is rejected exactly if one of the texts that it is read through is compound and has no
shape, and its error is the first one of these. They are reached by going over to operands and stand
in the text, and reading ends after as many of them as there are characters. -/
theorem parse_eq_error_iff (text : String) :
    (∀ error, parse text = .error error ↔
      ∃ before culprit behind, readTexts text.toList = before ++ culprit :: behind ∧
        (∀ part ∈ before, ¬Shapeless part) ∧ Shapeless culprit ∧
        error = .expression (String.ofList culprit)) ∧
    ((∃ error, parse text = .error error) ↔ ∃ part, Shapeless part ∧
      Relation.ReflTransGen (fun whole operand => operand ∈ operandTexts whole) text.toList part) ∧
    (∀ part ∈ readTexts text.toList, part <:+: text.toList) ∧
    WellFounded (fun operand whole : List Char => operand ∈ operandTexts whole) ∧
    (readTexts text.toList).length ≤ text.length + 1 := by
  refine ⟨fun error => ?_, ?_, fun part => isInfix_of_mem_readTexts, wellFounded_operandTexts, ?_⟩
  · rw [parse, parseChars_eq_error_iff, firstShapeless?]
    constructor
    · rintro ⟨culprit, hfirst, rfl⟩
      obtain ⟨hshapeless, before, behind, htexts, hbefore⟩ :=
        List.find?_eq_some_iff_append.mp hfirst
      exact ⟨before, culprit, behind, htexts, by simpa using hbefore, by simpa using hshapeless,
        rfl⟩
    · rintro ⟨before, culprit, behind, htexts, hbefore, hshapeless, rfl⟩
      exact ⟨culprit, List.find?_eq_some_iff_append.mpr
        ⟨by simpa using hshapeless, before, behind, htexts, by simpa using hbefore⟩, rfl⟩
  · rw [parse, exists_parseChars_eq_error_iff]
    simp only [mem_readTexts_iff, and_comm]
  · exact length_readTexts_le text.toList

end Expr

end NifBindings
