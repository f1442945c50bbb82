import NifBindings.Field.Map
import NifBindings.Proofs.Basic
import NifBindings.Proofs.Expr.Shape

/-!
# Joined operands

Two balanced texts, each in parentheses and with an operator between them, are taken apart again at
that operator. Behind the operator every space lies inside the second group, so no later cut exists.
Hence the condition of two joined declarations is read as the disjunction of their conditions.
-/

namespace NifBindings

/-- A text in parentheses. -/
def grouped (text : List Char) : List Char :=
  '(' :: (text ++ [')'])

/-- A text with fitting parentheses never falls below the depth that it starts at. -/
theorem le_depthFrom_of_balancedFrom {inner depth : Nat} {front rest : List Char}
    (h : balancedFrom inner (front ++ rest) = true) : depth ≤ depthFrom (inner + depth) front := by
  induction front generalizing inner with
  | nil => exact Nat.le_add_left depth inner
  | cons c front ih =>
    rw [List.cons_append, balancedFrom] at h
    split at h
    · cases h
    next hdip =>
      rw [depthFrom_cons, depthAfter_add hdip]
      exact ih h

/-- A group of a balanced text is balanced, and so is any text of balanced parts. -/
theorem balanced_grouped_append {text rest : List Char} (htext : balanced text = true)
    (hrest : balanced rest = true) : balanced (grouped text ++ rest) = true := by
  have hbehind : balancedFrom 1 (')' :: rest) = true := hrest
  have h : balancedFrom (0 + 1) (text ++ ')' :: rest) = balancedFrom 1 (')' :: rest) :=
    balancedFrom_append htext (')' :: rest)
  rw [hbehind] at h
  simpa [balanced, grouped, balancedFrom, depthAfter] using h

/-- The depth behind a group of a balanced text is the depth before it. -/
theorem depthFrom_grouped {text : List Char} (htext : balanced text = true) :
    depthFrom 0 (grouped text) = 0 := by
  rw [grouped, depthFrom_cons, depthAfter_open, depthFrom_append, depthFrom_of_balanced htext]
  rfl

/-- No cut lies inside a group. -/
theorem not_isCut_of_prefix_grouped {text front behind : List Char} (htext : balanced text = true)
    (hgroup : grouped text = front ++ ' ' :: behind) : depthFrom 0 front ≠ 0 := by
  cases front with
  | nil => cases hgroup
  | cons c front =>
    obtain ⟨rfl, hrest⟩ := List.cons.inj hgroup
    rw [depthFrom_cons, depthAfter_open]
    rcases append_cons_cases hrest with ⟨_, hc, _⟩ | ⟨more, _, hmore⟩ | ⟨more, rfl, _⟩
    · cases hc
    · simp at hmore
    · have h : 1 ≤ depthFrom (0 + 1) front := le_depthFrom_of_balancedFrom htext
      omega

/-- Two groups with an operator between them are split at that operator. -/
theorem splitBinary?_grouped {a b : List Char} (ha : balanced a = true) (hb : balanced b = true)
    (op : Spelling) :
    splitBinary? (grouped a ++ ' ' :: (op.text.toList ++ ' ' :: grouped b)) =
      some ⟨grouped a, op, grouped b⟩ := by
  rw [splitBinary?_eq_some_iff]
  refine ⟨⟨rfl, depthFrom_grouped ha, by simp [grouped], by simp [grouped]⟩, ?_⟩
  intro other hother
  refine Nat.not_lt.mp fun hlonger => ?_
  have hstart : grouped b ≠ other.op.text.toList ++ ' ' :: other.rhs := by
    intro h
    cases htext : other.op.text.toList with
    | nil => simp [htext, grouped] at h
    | cons c text =>
      rw [htext] at h
      obtain ⟨rfl, _⟩ := List.cons.inj h
      exact other.op.open_not_mem_text (by simp [htext])
  rcases append_cons_cases hother.text_eq with ⟨hlhs, _⟩ | ⟨more, hlhs, hmore⟩ | ⟨more, hlhs, _⟩
  · rw [hlhs] at hlonger
    exact Nat.lt_irrefl _ hlonger
  · rcases append_cons_cases hmore with ⟨_, _, hgroup⟩ | ⟨front, rfl, hgroup⟩ | ⟨front, hop, _⟩
    · exact hstart hgroup
    · refine not_isCut_of_prefix_grouped hb hgroup ?_
      have hdepth := hother.depth_eq
      rwa [hlhs, depthFrom_append, depthFrom_grouped ha, depthFrom_cons, depthAfter_space,
        depthFrom_append, op.depthFrom_text, depthFrom_cons, depthAfter_space] at hdepth
    · exact op.space_not_mem_text (by simp [hop])
  · rw [hlhs, List.length_append] at hlonger
    omega

/-- Two groups with an operator between them have their insides as operands. -/
theorem matchShape?_grouped {a b : List Char} (ha : balanced a = true) (hb : balanced b = true)
    (op : Spelling) :
    matchShape? (grouped a ++ ' ' :: (op.text.toList ++ ' ' :: grouped b)) =
      some ⟨.grouped, [], a, op, b⟩ := by
  have hunwrap {text : List Char} (htext : balanced text = true) :
      unwrapGroup? (grouped text) = some text := unwrapGroup?_eq_some_iff.mpr ⟨rfl, htext⟩
  have hsplit : splitGrouped? (grouped a ++ ' ' :: (op.text.toList ++ ' ' :: grouped b)) =
      some ⟨a, op, b⟩ :=
    splitGrouped?_eq_some_iff.mpr
      ⟨_, splitBinary?_grouped ha hb op, hunwrap ha, rfl, hunwrap hb⟩
  have hbalanced : balanced (grouped a ++ ' ' :: (op.text.toList ++ ' ' :: grouped b)) = true := by
    refine balanced_grouped_append ha ?_
    have hb' : balanced (grouped b) = true := by
      rw [← List.append_nil (grouped b)]
      exact balanced_grouped_append hb rfl
    have hspace (rest : List Char) :
        (' ' :: rest).filter isParenthesis = rest.filter isParenthesis := rfl
    rw [balanced, ← balancedFrom_filter] at hb' ⊢
    rwa [hspace, List.filter_append, op.filter_isParenthesis_text, List.nil_append, hspace]
  have hunary : takeUnary (grouped a ++ ' ' :: (op.text.toList ++ ' ' :: grouped b)) =
      ([], grouped a ++ ' ' :: (op.text.toList ++ ' ' :: grouped b)) := rfl
  rw [matchShape?_eq_some_iff, hunary]
  exact ⟨hbalanced, .inl ⟨⟨a, op, b⟩, hsplit, rfl⟩⟩

namespace Expr

/-- The condition of two joined declarations is read as the disjunction of their conditions. -/
theorem parse_joined {a b : String} {lhs rhs : Expr} (ha : parse a = .ok lhs)
    (hb : parse b = .ok rhs) :
    parse ("(" ++ a ++ ") #OR# (" ++ b ++ ")") =
      .ok (.binary lhs.asOperand .or rhs.asOperand) := by
  have ha := parseChars_eq_ok_iff.mp ha
  have hb := parseChars_eq_ok_iff.mp hb
  have htext : ("(" ++ a ++ ") #OR# (" ++ b ++ ")").toList =
      grouped a.toList ++
        ' ' :: ((Spelling.symbolic .or).text.toList ++ ' ' :: grouped b.toList) := by
    simp [grouped, Spelling.text, Operator.token]
  have hfound := matchShape?_grouped ha.balanced hb.balanced (.symbolic .or)
  rw [← htext] at hfound
  exact parseChars_eq_ok_iff.mpr (.node hfound (by simp [Spelling.operator]) ha hb)

end Expr

end NifBindings
