import NifBindings.Proofs.Expr.Joined

/-!
# Forms of binary expressions

A binary expression is written in one of three forms: with both operands in parentheses, with the
whole of it in parentheses, or bare. Unary operators may stand in front of the first two. A text is
taken apart in the first form that it has, at the last operator outside parentheses, and its parts
written in that form are the text again. A text that has no form is not taken apart.
-/

namespace NifBindings

/-- A balanced text in front of another one leaves it to that one whether the parentheses fit. -/
theorem balanced_append {a : List Char} (ha : balanced a = true) (b : List Char) :
    balanced (a ++ b) = balanced b := by
  have h : balancedFrom (0 + 0) (a ++ b) = balancedFrom 0 b := balancedFrom_append ha b
  exact h

/-- In a text with fitting parentheses the rest behind any front closes what the front leaves open,
and a front that leaves nothing open has fitting parentheses itself. -/
theorem balancedFrom_of_append {depth : Nat} {front rest : List Char}
    (h : balancedFrom depth (front ++ rest) = true) :
    balancedFrom (depthFrom depth front) rest = true ∧
      (depthFrom depth front = 0 → balancedFrom depth front = true) := by
  induction front generalizing depth with
  | nil => exact ⟨h, fun hzero => by simpa [balancedFrom] using hzero⟩
  | cons c front ih =>
    rw [List.cons_append, balancedFrom] at h
    split at h
    · cases h
    next hdip =>
      rw [depthFrom_cons, balancedFrom, if_neg hdip]
      exact ih h

/-- A group of a balanced text is balanced. -/
theorem balanced_grouped {text : List Char} (htext : balanced text = true) :
    balanced (grouped text) = true := by
  rw [← List.append_nil (grouped text)]
  exact balanced_grouped_append htext rfl

/-- Unary operators have no parentheses. -/
theorem balanced_signs (signs : List UnaryOperator) :
    balanced (signs.map UnaryOperator.char) = true := by
  have hsign (c : Char) (hc : c ∈ signs.map UnaryOperator.char) : c ≠ '(' ∧ c ≠ ')' := by
    obtain ⟨sign, _, rfl⟩ := List.mem_map.mp hc
    cases sign <;> decide
  exact balanced_of_not_mem (fun h => (hsign _ h).1 rfl) (fun h => (hsign _ h).2 rfl)

/-- Unary operators in front of a group are taken off it. -/
theorem takeUnary_signs (signs : List UnaryOperator) (rest : List Char) :
    takeUnary (signs.map UnaryOperator.char ++ '(' :: rest) = (signs, '(' :: rest) := by
  have hopen : takeUnary ('(' :: rest) = ([], '(' :: rest) := rfl
  rw [takeUnary_map_append, hopen, List.append_nil]

namespace Split

/-- Two operands with an operator between them. -/
def text (split : Split) : List Char :=
  split.lhs ++ ' ' :: (split.op.text.toList ++ ' ' :: split.rhs)

/-- No operator outside parentheses stands behind the one of the cut, unless nothing follows it. -/
def IsLast (split : Split) : Prop :=
  ∀ other : Split, other.text = split.text → depthFrom 0 other.lhs = 0 → other.rhs ≠ [] →
    other.lhs.length ≤ split.lhs.length

/-- An operator with its two spaces has no parentheses. -/
theorem balanced_operator (op : Spelling) :
    balanced (' ' :: (op.text.toList ++ [' '])) = true := by
  have hspace (c : Char) (hc : isParenthesis c = true) : c ∉ ' ' :: (op.text.toList ++ [' ']) := by
    intro hmem
    simp only [List.mem_cons, List.mem_append, List.not_mem_nil, or_false] at hmem
    rcases hmem with rfl | hmem | rfl
    · exact absurd hc (by decide)
    · rw [Spelling.not_isParenthesis_of_mem hmem] at hc
      cases hc
    · exact absurd hc (by decide)
  exact balanced_of_not_mem (hspace '(' rfl) (hspace ')' rfl)

/-- The operator of a cut stands outside parentheses of a balanced text exactly if both operands are
balanced. -/
theorem balanced_text_iff (split : Split) :
    balanced split.text = true ∧ depthFrom 0 split.lhs = 0 ↔
      balanced split.lhs = true ∧ balanced split.rhs = true := by
  have hbehind : balanced (' ' :: (split.op.text.toList ++ ' ' :: split.rhs)) =
      balanced split.rhs := by
    have h := balanced_append (balanced_operator split.op) split.rhs
    simpa using h
  constructor
  · rintro ⟨htext, hdepth⟩
    obtain ⟨hrest, hfront⟩ := balancedFrom_of_append htext
    rw [hdepth] at hrest
    exact ⟨hfront hdepth, hbehind ▸ hrest⟩
  · rintro ⟨hlhs, hrhs⟩
    refine ⟨?_, depthFrom_of_balanced hlhs 0⟩
    rw [text, balanced_append hlhs, hbehind]
    exact hrhs

end Split

/-- A balanced text is split at its last operator, between balanced operands that are not empty. -/
theorem splitBinary?_eq_some_iff_isLast {text : List Char} {split : Split}
    (htext : balanced text = true) :
    splitBinary? text = some split ↔ text = split.text ∧
      (balanced split.lhs = true ∧ balanced split.rhs = true) ∧
      (split.lhs ≠ [] ∧ split.rhs ≠ []) ∧ split.IsLast := by
  rw [splitBinary?_eq_some_iff]
  constructor
  · rintro ⟨hcut, hlongest⟩
    have heq : text = split.text := hcut.text_eq
    refine ⟨heq, (Split.balanced_text_iff split).mp ⟨heq ▸ htext, hcut.depth_eq⟩,
      ⟨hcut.lhs_ne_nil, hcut.rhs_ne_nil⟩, ?_⟩
    intro other hother hdepth hrhs
    by_cases hlhs : other.lhs = []
    · simp [hlhs]
    · exact hlongest other ⟨heq.trans hother.symm, hdepth, hlhs, hrhs⟩
  · rintro ⟨heq, hoperands, ⟨hlhs, hrhs⟩, hlast⟩
    have hdepth := ((Split.balanced_text_iff split).mpr hoperands).2
    refine ⟨⟨heq, hdepth, hlhs, hrhs⟩, ?_⟩
    intro other hother
    exact hlast other (hother.text_eq.symm.trans heq) hother.depth_eq hother.rhs_ne_nil

/-- A text with a cut is split. -/
theorem IsCut.exists_splitBinary? {text : List Char} {split : Split} (h : IsCut text split) :
    ∃ last, splitBinary? text = some last := by
  have hmem := mem_splitsFrom_iff_isCut.mpr h
  cases hlast : (splitsFrom 0 [] text).getLast? with
  | none =>
    rw [List.getLast?_eq_none_iff.mp hlast] at hmem
    cases hmem
  | some last => exact ⟨last, hlast⟩

/-- A text has both operands in parentheses exactly if it is two groups around an operator. -/
theorem splitGrouped?_eq_some_iff_text {text : List Char} {split : Split} :
    splitGrouped? text = some split ↔
      text = Split.text ⟨grouped split.lhs, split.op, grouped split.rhs⟩ ∧
        balanced split.lhs = true ∧ balanced split.rhs = true := by
  rw [splitGrouped?_eq_some_iff]
  constructor
  · rintro ⟨outer, houter, hlhs, hop, hrhs⟩
    obtain ⟨hlhs, hbalancedlhs⟩ := unwrapGroup?_eq_some_iff.mp hlhs
    obtain ⟨hrhs, hbalancedrhs⟩ := unwrapGroup?_eq_some_iff.mp hrhs
    have htext := (splitBinary?_eq_some_iff.mp houter).1.text_eq
    rw [hlhs, hop, hrhs] at htext
    exact ⟨htext, hbalancedlhs, hbalancedrhs⟩
  · rintro ⟨rfl, hlhs, hrhs⟩
    exact ⟨_, splitBinary?_grouped hlhs hrhs split.op, unwrapGroup?_eq_some_iff.mpr ⟨rfl, hlhs⟩,
      rfl, unwrapGroup?_eq_some_iff.mpr ⟨rfl, hrhs⟩⟩

/-- A single group has no operator outside its parentheses. -/
theorem splitGrouped?_grouped {inside : List Char} (h : balanced inside = true) :
    splitGrouped? (grouped inside) = none := by
  cases hsplit : splitGrouped? (grouped inside) with
  | none => rfl
  | some split =>
    obtain ⟨htext, hlhs, _⟩ := splitGrouped?_eq_some_iff_text.mp hsplit
    exact absurd (depthFrom_grouped hlhs) (not_isCut_of_prefix_grouped h htext)

/-- The place of a shape in the order in which the shapes are tried. -/
def Shape.place : Shape → Nat
  | .grouped => 0
  | .parenthesized => 1
  | .bare => 2

namespace ShapeMatch

/-- The operands and the operator. -/
def split (form : ShapeMatch) : Split :=
  ⟨form.lhs, form.op, form.rhs⟩

/-- A binary expression written in its shape. -/
def text (form : ShapeMatch) : List Char :=
  match form.shape with
  | .grouped =>
    form.unary.map UnaryOperator.char ++
      Split.text ⟨grouped form.lhs, form.op, grouped form.rhs⟩
  | .parenthesized => form.unary.map UnaryOperator.char ++ grouped form.split.text
  | .bare => form.split.text

end ShapeMatch

/-- A form of a text: a binary expression that is written as this text. -/
structure IsForm (text : List Char) (form : ShapeMatch) : Prop where
  /-- The parts make up the text. -/
  text_eq : text = form.text
  /-- The left operand is balanced. -/
  balanced_lhs : balanced form.lhs = true
  /-- The right operand is balanced. -/
  balanced_rhs : balanced form.rhs = true
  /-- An operand without parentheses of its own is not empty. -/
  ne_nil : form.shape ≠ .grouped → form.lhs ≠ [] ∧ form.rhs ≠ []
  /-- Unary operators stand in front of a parenthesis only. -/
  unary_eq : form.shape = .bare → form.unary = []

namespace IsForm

/-- A text that has a form is balanced. -/
theorem balanced_text {text : List Char} {form : ShapeMatch} (h : IsForm text form) :
    balanced text = true := by
  obtain ⟨shape, unary, lhs, op, rhs⟩ := form
  obtain ⟨rfl, hlhs, hrhs, _⟩ := h
  have hsplit {lhs rhs : List Char} (hlhs : balanced lhs = true) (hrhs : balanced rhs = true) :
      balanced (Split.text ⟨lhs, op, rhs⟩) = true :=
    ((Split.balanced_text_iff ⟨lhs, op, rhs⟩).mpr ⟨hlhs, hrhs⟩).1
  cases shape with
  | grouped =>
    rw [ShapeMatch.text, balanced_append (balanced_signs unary)]
    exact hsplit (balanced_grouped hlhs) (balanced_grouped hrhs)
  | parenthesized =>
    rw [ShapeMatch.text, balanced_append (balanced_signs unary)]
    exact balanced_grouped (hsplit hlhs hrhs)
  | bare => exact hsplit hlhs hrhs

/-- The operator of a form without parentheses around its operands is a cut. -/
theorem isCut {text : List Char} {form : ShapeMatch} (h : IsForm text form)
    (hshape : form.shape ≠ .grouped) : IsCut form.split.text form.split := by
  obtain ⟨hlhs, hrhs⟩ := h.ne_nil hshape
  have hdepth := ((Split.balanced_text_iff form.split).mpr ⟨h.balanced_lhs, h.balanced_rhs⟩).2
  exact ⟨rfl, hdepth, hlhs, hrhs⟩

/-- A text with both operands in parentheses is taken apart so. -/
theorem matchShape?_of_grouped {text : List Char} {form : ShapeMatch} (h : IsForm text form)
    (hshape : form.shape = .grouped) : matchShape? text = some form := by
  obtain ⟨shape, unary, lhs, op, rhs⟩ := form
  have hbalanced := h.balanced_text
  obtain ⟨rfl, hlhs, hrhs, _⟩ := h
  subst hshape
  have hunary : takeUnary (ShapeMatch.text ⟨.grouped, unary, lhs, op, rhs⟩) =
      (unary, Split.text ⟨grouped lhs, op, grouped rhs⟩) := takeUnary_signs unary _
  rw [matchShape?_eq_some_iff, hunary]
  exact ⟨hbalanced,
    .inl ⟨⟨lhs, op, rhs⟩, splitGrouped?_eq_some_iff_text.mpr ⟨rfl, hlhs, hrhs⟩, rfl⟩⟩

/-- A text in parentheses with an operator inside is taken apart at the last one of these. -/
theorem matchShape?_of_parenthesized {text : List Char} {form : ShapeMatch} (h : IsForm text form)
    (hshape : form.shape = .parenthesized) :
    ∃ split, splitBinary? form.split.text = some split ∧
      matchShape? text = some (split.toMatch .parenthesized form.unary) := by
  obtain ⟨split, hsplit⟩ := (h.isCut (by simp [hshape])).exists_splitBinary?
  refine ⟨split, hsplit, ?_⟩
  have hinside := ((Split.balanced_text_iff form.split).mpr ⟨h.balanced_lhs, h.balanced_rhs⟩).1
  have htext : text = form.unary.map UnaryOperator.char ++ grouped form.split.text := by
    rw [h.text_eq, ShapeMatch.text, hshape]
  have hunary : takeUnary text = (form.unary, grouped form.split.text) := by
    rw [htext]
    exact takeUnary_signs form.unary _
  rw [matchShape?_eq_some_iff, hunary]
  refine ⟨h.balanced_text, .inr (.inl ⟨splitGrouped?_grouped hinside, split, ?_, rfl⟩)⟩
  exact splitParenthesized?_eq_some_iff.mpr
    ⟨form.split.text, unwrapGroup?_eq_some_iff.mpr ⟨rfl, hinside⟩, hsplit⟩

/-- A text with an operator outside parentheses is taken apart in some form. -/
theorem exists_matchShape?_of_bare {text : List Char} {form : ShapeMatch} (h : IsForm text form)
    (hshape : form.shape = .bare) : ∃ found, matchShape? text = some found := by
  have htext : text = form.split.text := by rw [h.text_eq, ShapeMatch.text, hshape]
  obtain ⟨split, hsplit⟩ := (h.isCut (by simp [hshape])).exists_splitBinary?
  rw [← htext] at hsplit
  unfold matchShape?
  rw [if_pos h.balanced_text]
  dsimp only
  split
  next split => exact ⟨_, rfl⟩
  next =>
    split
    next split => exact ⟨_, rfl⟩
    next => exact ⟨split.toMatch .bare [], by rw [hsplit]; rfl⟩

/-- A text that has a form is taken apart. -/
theorem exists_matchShape? {text : List Char} {form : ShapeMatch} (h : IsForm text form) :
    ∃ found, matchShape? text = some found := by
  cases hshape : form.shape with
  | grouped => exact ⟨form, h.matchShape?_of_grouped hshape⟩
  | parenthesized =>
    obtain ⟨split, _, hfound⟩ := h.matchShape?_of_parenthesized hshape
    exact ⟨_, hfound⟩
  | bare => exact h.exists_matchShape?_of_bare hshape

/-- No form of a text comes before the shape in which it is taken apart. -/
theorem place_le {text : List Char} {form found : ShapeMatch} (h : IsForm text form)
    (hfound : matchShape? text = some found) : found.shape.place ≤ form.shape.place := by
  cases hshape : form.shape with
  | grouped =>
    rw [h.matchShape?_of_grouped hshape] at hfound
    cases hfound
    exact Nat.le_of_eq (congrArg Shape.place hshape)
  | parenthesized =>
    obtain ⟨split, _, hform⟩ := h.matchShape?_of_parenthesized hshape
    rw [hform] at hfound
    cases hfound
    exact Nat.le_refl _
  | bare => cases found.shape <;> decide

end IsForm

/-- The parts that a text is taken apart into are a form of it, and unless both operands stand in
parentheses the operator is the last one. -/
theorem isForm_of_matchShape? {text : List Char} {found : ShapeMatch}
    (h : matchShape? text = some found) :
    IsForm text found ∧ (found.shape ≠ .grouped → found.split.IsLast) := by
  have hwhole := takeUnary_append text
  obtain ⟨hbalanced, ⟨split, hsplit, rfl⟩ | ⟨_, split, hsplit, rfl⟩ | ⟨_, _, split, hsplit, rfl⟩⟩ :=
    matchShape?_eq_some_iff.mp h
  · obtain ⟨hrest, hlhs, hrhs⟩ := splitGrouped?_eq_some_iff_text.mp hsplit
    rw [hrest] at hwhole
    exact ⟨⟨hwhole.symm, hlhs, hrhs, fun hne => absurd rfl hne, nofun⟩, fun hne => absurd rfl hne⟩
  · obtain ⟨inside, hinside, hsplit⟩ := splitParenthesized?_eq_some_iff.mp hsplit
    obtain ⟨hrest, hinside⟩ := unwrapGroup?_eq_some_iff.mp hinside
    obtain ⟨rfl, ⟨hlhs, hrhs⟩, hne, hlast⟩ := (splitBinary?_eq_some_iff_isLast hinside).mp hsplit
    rw [hrest] at hwhole
    exact ⟨⟨hwhole.symm, hlhs, hrhs, fun _ => hne, nofun⟩, fun _ => hlast⟩
  · obtain ⟨htext, ⟨hlhs, hrhs⟩, hne, hlast⟩ :=
      (splitBinary?_eq_some_iff_isLast hbalanced).mp hsplit
    exact ⟨⟨htext, hlhs, hrhs, fun _ => hne, fun _ => rfl⟩, fun _ => hlast⟩

/-- A form that no other one comes before, split at its last operator, is what its text is taken
apart into. -/
theorem IsForm.matchShape?_eq {text : List Char} {form : ShapeMatch} (h : IsForm text form)
    (hfirst : ∀ other, IsForm text other → form.shape.place ≤ other.shape.place)
    (hlast : form.shape ≠ .grouped → form.split.IsLast) : matchShape? text = some form := by
  have hoperands := (Split.balanced_text_iff form.split).mpr ⟨h.balanced_lhs, h.balanced_rhs⟩
  have hsplit (hshape : form.shape ≠ .grouped) : splitBinary? form.split.text = some form.split :=
    (splitBinary?_eq_some_iff_isLast hoperands.1).mpr
      ⟨rfl, ⟨h.balanced_lhs, h.balanced_rhs⟩, h.ne_nil hshape, hlast hshape⟩
  cases hshape : form.shape with
  | grouped => exact h.matchShape?_of_grouped hshape
  | parenthesized =>
    obtain ⟨split, hinside, hfound⟩ := h.matchShape?_of_parenthesized hshape
    rw [hsplit (by simp [hshape])] at hinside
    cases hinside
    rw [hfound, ← hshape]
    rfl
  | bare =>
    obtain ⟨found, hfound⟩ := h.exists_matchShape?
    have hplace := hfirst found (isForm_of_matchShape? hfound).1
    rw [hshape] at hplace
    -- A text that is taken apart in an earlier shape would have a form that comes before this one.
    obtain ⟨_, ⟨split, _, rfl⟩ | ⟨_, split, _, rfl⟩ | ⟨_, _, split, hwhole, rfl⟩⟩ :=
      matchShape?_eq_some_iff.mp hfound
    · exact absurd hplace (by decide : ¬Shape.bare.place ≤ Shape.grouped.place)
    · exact absurd hplace (by decide : ¬Shape.bare.place ≤ Shape.parenthesized.place)
    · have htext : text = form.split.text := by rw [h.text_eq, ShapeMatch.text, hshape]
      rw [htext, hsplit (by simp [hshape])] at hwhole
      cases hwhole
      rw [hfound, ← hshape, ← h.unary_eq hshape]
      rfl

/-- A text with a shape has a space, beside its operator. -/
theorem space_mem_of_matchShape? {text : List Char} {found : ShapeMatch}
    (h : matchShape? text = some found) : ' ' ∈ text := by
  have hsplit : ' ' ∈ found.split.text := by simp [Split.text]
  have hgrouped : ' ' ∈ (⟨grouped found.lhs, found.op, grouped found.rhs⟩ : Split).text := by
    simp [Split.text]
  rw [(isForm_of_matchShape? h).1.text_eq, ShapeMatch.text]
  split
  · exact List.mem_append_right _ hgrouped
  · exact List.mem_append_right _ (by simp [grouped, hsplit])
  · exact hsplit

/-- A text is taken apart exactly if it has a form, and then into the parts of the first form that
it has, split at the last operator outside parentheses. -/
theorem matchShape?_eq_some_iff_isForm (text : List Char) :
    ((matchShape? text).isSome = true ↔ ∃ form, IsForm text form) ∧
      ∀ found, matchShape? text = some found ↔
        IsForm text found ∧
          (∀ other, IsForm text other → found.shape.place ≤ other.shape.place) ∧
          (found.shape ≠ .grouped → found.split.IsLast) := by
  constructor
  · rw [Option.isSome_iff_exists]
    constructor
    · rintro ⟨found, hfound⟩
      exact ⟨found, (isForm_of_matchShape? hfound).1⟩
    · rintro ⟨form, hform⟩
      exact hform.exists_matchShape?
  · intro found
    constructor
    · intro hfound
      obtain ⟨hform, hlast⟩ := isForm_of_matchShape? hfound
      exact ⟨hform, fun other hother => hother.place_le hfound, hlast⟩
    · rintro ⟨hform, hfirst, hlast⟩
      exact hform.matchShape?_eq hfirst hlast

end NifBindings
