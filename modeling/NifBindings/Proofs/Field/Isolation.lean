import NifBindings.Proofs.Expr.Balance
import NifBindings.Proofs.Expr.Enclosed
import NifBindings.Proofs.Expr.Grouping
import NifBindings.Proofs.Field.Presence
import NifBindings.Proofs.Version.Check

/-!
# Isolation of conditions and versions

A guard with a condition and a range of versions puts each of them in parentheses and `&&` between
them. The parentheses of the condition fit whatever the schema says, so `&&` is all that stands
outside, and the guard is true exactly if its condition is and the version lies in the range.
-/

namespace NifBindings

/-- The characters of a text that stand outside its parentheses, `depth` of which are open. -/
def outsideChars (depth : Nat) : List Char → List Char
  | [] => []
  | c :: rest =>
    if depth = 0 ∧ isParenthesis c = false then c :: outsideChars depth rest
    else outsideChars (depthAfter depth c) rest

/-- A text that closes all but one of the groups that are open has no character outside them. -/
theorem outsideChars_append {inner : Nat} {text : List Char}
    (h : balancedFrom inner text = true) (rest : List Char) :
    outsideChars (inner + 1) (text ++ rest) = outsideChars 1 rest := by
  induction text generalizing inner with
  | nil =>
    have hinner : inner = 0 := by simpa [balancedFrom] using h
    rw [hinner]
    rfl
  | cons c text ih =>
    rw [balancedFrom] at h
    split at h
    · cases h
    next hdip =>
      rw [List.cons_append, outsideChars, if_neg (by simp), depthAfter_add hdip, ih h]

/-- A group of a balanced text has no character outside. -/
theorem outsideChars_grouped {text : List Char} (h : balanced text = true) (rest : List Char) :
    outsideChars 0 (grouped text ++ rest) = outsideChars 0 rest := by
  have hinside : outsideChars (0 + 1) (text ++ ')' :: rest) = outsideChars 0 rest :=
    outsideChars_append h (')' :: rest)
  rw [← hinside, grouped]
  simp [outsideChars, isParenthesis]

/-- Of two groups with an operator between them only the operator and its spaces stand outside. -/
theorem outsideChars_groupsText {a b : List Char} (ha : balanced a = true)
    (hb : balanced b = true) (op : Operator) :
    outsideChars 0 (groupsText a op b) = ' ' :: (op.native.toList ++ [' ']) := by
  have hright : outsideChars 0 (grouped b) = [] := by
    simpa [outsideChars] using outsideChars_grouped hb []
  rw [groupsText, outsideChars_grouped ha]
  cases op <;> simp [Operator.native, outsideChars, isParenthesis, hright]

/-- What the operands and operators of a text mean in the files of a version. Every meaning will do
in which `&&` is a conjunction and `<=` between versions compares them. -/
structure Interpretation (α : Type) (header : Version) where
  /-- The value of an operand. -/
  operand : List Char → α
  /-- The value behind a unary operator. -/
  unary : UnaryOperator → α → α
  /-- The value of two operands with an operator between them. -/
  binary : Operator → α → α → α
  /-- Whether a value counts as true. -/
  truth : α → Bool
  /-- A conjunction is true exactly if both of its operands are. -/
  truth_and (a b : α) : truth (binary .and a b) = (truth a && truth b)
  /-- Versions are compared by their components. -/
  truth_le {lhs rhs : List Char} {lower upper : Version} (hlhs : header.ofOperand? lhs = some lower)
    (hrhs : header.ofOperand? rhs = some upper) :
    truth (binary .le (operand lhs) (operand rhs)) = decide (lower ≤ upper)

namespace Interpretation

variable {α : Type} {header : Version}

/-- The value of what the operators of a text apply to. -/
def value (meaning : Interpretation α header) : Grouping → α
  | .operand text => meaning.operand text
  | .unary op inner => meaning.unary op (meaning.value inner)
  | .binary lhs op rhs => meaning.binary op (meaning.value lhs) (meaning.value rhs)

/-- What a text answers: whether the value of its reading counts as true. -/
def Answers (meaning : Interpretation α header) (text : String) (answer : Bool) : Prop :=
  ∃ grouping, IsReading text.toList grouping ∧ meaning.truth (meaning.value grouping) = answer

/-- A check of versions answers the same under every meaning. -/
theorem truth_value_of_holdsIn? (meaning : Interpretation α header) {grouping : Grouping}
    {answer : Bool} (h : grouping.holdsIn? header = some answer) :
    meaning.truth (meaning.value grouping) = answer := by
  fun_induction Grouping.holdsIn? header grouping generalizing answer with
  | case1 lhs rhs =>
    obtain ⟨lower, hlower, h⟩ := Option.bind_eq_some_iff.mp h
    obtain ⟨upper, hupper, h⟩ := Option.bind_eq_some_iff.mp h
    cases h
    exact meaning.truth_le hlower hupper
  | case2 lhs rhs ihlhs ihrhs =>
    obtain ⟨left, hleft, h⟩ := Option.bind_eq_some_iff.mp h
    obtain ⟨right, hright, h⟩ := Option.bind_eq_some_iff.mp h
    cases h
    rw [value, meaning.truth_and, ihlhs hleft, ihrhs hright]
  | case3 => cases h

/-- The check of a range answers whether the version lies in it and nothing else. -/
theorem answers_check_iff (meaning : Interpretation α header) {range : VersionRange}
    {check : String} (hcheck : range.render? = some check) (answer : Bool) :
    meaning.Answers check answer ↔ answer = range.contains header := by
  have hanswers := range.answers_render? header
  rw [hcheck] at hanswers
  obtain ⟨grouping, hreading, hholds⟩ := hanswers
  have htruth := meaning.truth_value_of_holdsIn? hholds
  constructor
  · rintro ⟨other, hother, rfl⟩
    rw [hother.unique hreading, htruth]
  · rintro rfl
    exact ⟨grouping, hreading, htruth⟩

/-- Two balanced texts in parentheses with `&&` between them answer the conjunction of their
answers. -/
theorem answers_groups_iff (meaning : Interpretation α header) {a b : String}
    (ha : balanced a.toList = true) (hb : balanced b.toList = true) (answer : Bool) :
    meaning.Answers ("(" ++ a ++ ") && (" ++ b ++ ")") answer ↔
      ∃ left right, meaning.Answers a left ∧ meaning.Answers b right ∧
        answer = (left && right) := by
  have htext : ("(" ++ a ++ ") && (" ++ b ++ ")").toList = groupsText a.toList .and b.toList := by
    simp [groupsText, grouped, Operator.native]
  unfold Answers
  simp only [htext, isReading_groupsText_iff ha hb]
  constructor
  · rintro ⟨_, ⟨lhs, rhs, hlhs, hrhs, rfl⟩, rfl⟩
    exact ⟨_, _, ⟨lhs, hlhs, rfl⟩, ⟨rhs, hrhs, rfl⟩, meaning.truth_and _ _⟩
  · rintro ⟨_, _, ⟨lhs, hlhs, rfl⟩, ⟨rhs, hrhs, rfl⟩, rfl⟩
    exact ⟨_, ⟨lhs, rhs, hlhs, hrhs, rfl⟩, meaning.truth_and _ _⟩

end Interpretation

/-- A range has a check unless it is open at both ends. -/
theorem VersionRange.render?_eq_none_iff {range : VersionRange} :
    range.render? = none ↔ range.first = none ∧ range.last = none := by
  obtain ⟨first, last⟩ := range
  cases first <;> cases last <;> simp [render?]

/-- The parentheses of two balanced texts with an operator between them fit. -/
theorem balanced_binary {lhs rhs : List Char} (hlhs : balanced lhs = true)
    (hrhs : balanced rhs = true) (op : Operator) :
    balanced (lhs ++ ' ' :: (op.native.toList ++ ' ' :: rhs)) = true :=
  ((Split.balanced_text_iff ⟨lhs, .native op, rhs⟩).mpr ⟨hlhs, hrhs⟩).1

/-- The parentheses of the check of a range fit. -/
theorem VersionRange.balanced_of_render? {range : VersionRange} {check : String}
    (h : range.render? = some check) : balanced check.toList = true := by
  have hfirst (version : Version) : balanced (firstText version).toList = true := by
    rw [toList_firstText]
    exact balanced_binary version.isOperand_value.balanced Version.isOperand_header.balanced .le
  have hlast (version : Version) : balanced (lastText version).toList = true := by
    rw [toList_lastText]
    exact balanced_binary Version.isOperand_header.balanced version.isOperand_value.balanced .le
  obtain ⟨first, last⟩ := range
  cases first with
  | none =>
    cases last with
    | none => cases h
    | some last =>
      cases h
      exact hlast last
  | some first =>
    cases last with
    | none =>
      cases h
      exact hfirst first
    | some last =>
      cases h
      simpa [Operator.native] using balanced_binary (hfirst first) (hlast last) .and

/-- A guard has a text unless there is neither a condition nor a check. -/
theorem Guard.render?_eq_none_iff {guard : Guard} :
    guard.render? = none ↔ guard.condition = none ∧ guard.range.render? = none := by
  obtain ⟨condition, range⟩ := guard
  cases condition <;> cases hrange : range.render? <;> simp [render?, hrange]

/-- A reader of a value that may be absent finds nothing exactly if nothing is there. -/
theorem readOptional_eq_ok_none_iff {α β : Type} {read : α → Except InputError β}
    {value : Option α} : readOptional read value = .ok none ↔ value = none := by
  cases value with
  | none => simp [readOptional]
  | some value => simp [readOptional_some_eq_ok_iff]

/-- A reader of a value that may be absent finds nothing in an absent one only. -/
theorem eq_none_iff_of_readOptional {α β : Type} {read : α → Except InputError β}
    {value : Option α} {found : Option β} (h : readOptional read value = .ok found) :
    found = none ↔ value = none := by
  constructor
  · rintro rfl
    exact readOptional_eq_ok_none_iff.mp h
  · rintro rfl
    exact (Except.ok.inj h).symm

namespace FieldType

/-- The text of the guard of a field. -/
def guardText (type : FieldType) : Except InputError (Option String) :=
  type.guard.map Guard.render?

/-- The range of a field is open where the field declares no version. -/
theorem bounds_of_versionRange {type : FieldType} {range : VersionRange}
    (h : type.versionRange = .ok range) :
    (range.first = none ↔ type.since = none) ∧ (range.last = none ↔ type.last = none) := by
  obtain ⟨first, hfirst, h⟩ := bind_eq_ok_iff.mp h
  obtain ⟨last, hlast, h⟩ := bind_eq_ok_iff.mp h
  cases h
  exact ⟨eq_none_iff_of_readOptional hfirst, eq_none_iff_of_readOptional hlast⟩

/-- A field has no guard exactly if it has no condition and declares no version. -/
theorem guardText_eq_none_iff (type : FieldType) :
    type.guardText = .ok none ↔
      type.condition = none ∧ type.since = none ∧ type.last = none := by
  unfold guardText
  rw [map_eq_ok_iff]
  constructor
  · rintro ⟨guard, hguard, hnone⟩
    obtain ⟨hcondition, hrange⟩ := guard_eq_ok_iff.mp hguard
    obtain ⟨hexpr, hcheck⟩ := Guard.render?_eq_none_iff.mp hnone
    obtain ⟨hfirst, hlast⟩ := VersionRange.render?_eq_none_iff.mp hcheck
    obtain ⟨hsince, huntil⟩ := bounds_of_versionRange hrange
    exact ⟨(eq_none_iff_of_readOptional hcondition).mp hexpr, hsince.mp hfirst, huntil.mp hlast⟩
  · rintro ⟨hcondition, hsince, hlast⟩
    refine ⟨⟨none, ⟨none, none⟩⟩, guard_eq_ok_iff.mpr ⟨?_, ?_⟩, rfl⟩
    · rw [conditionExpr, hcondition]
      rfl
    · rw [versionRange, hsince, hlast]
      rfl

/-- The guard of a field with a condition and a version puts the generated condition and the check
of the range in parentheses. -/
theorem guardText_eq_some {type : FieldType} {condition text : String}
    (hcondition : type.condition = some condition)
    (hbound : type.since ≠ none ∨ type.last ≠ none) (h : type.guardText = .ok (some text)) :
    ∃ generated range check, Expr.generate condition = .ok generated ∧
      type.versionRange = .ok range ∧ range.render? = some check ∧
        text = "(" ++ generated ++ ") && (" ++ check ++ ")" := by
  obtain ⟨guard, hguard, htext⟩ := map_eq_ok_iff.mp h
  obtain ⟨hexpr, hrange⟩ := guard_eq_ok_iff.mp hguard
  rw [conditionExpr, hcondition] at hexpr
  obtain ⟨expr, hparse, hexpr⟩ := readOptional_some_eq_ok_iff.mp hexpr
  obtain ⟨check, hcheck⟩ : ∃ check, guard.range.render? = some check := by
    obtain ⟨hsince, hlast⟩ := bounds_of_versionRange hrange
    rw [← Option.ne_none_iff_exists', Ne, VersionRange.render?_eq_none_iff, hsince, hlast]
    exact not_and_or.mpr hbound
  refine ⟨expr.render, guard.range, check, Expr.generate_eq_ok_iff.mpr ⟨expr, hparse, rfl⟩, hrange,
    hcheck, ?_⟩
  rw [Guard.render?, hexpr, hcheck] at htext
  exact (Option.some.inj htext).symm

/-- The generated text of every expression has fitting parentheses and no symbolic token. A field
has no guard exactly if it has neither a condition nor a version. With both, the only operator of
the guard outside parentheses is the `&&` between its two groups, and the guard answers the
conjunction of what the condition answers and whether the version of the file lies in the range. -/
theorem guardText_isolated :
    (∀ text generated, Expr.generate text = .ok generated →
      Fits generated.toList ∧ ∀ op : Operator, ¬op.token.toList <:+: generated.toList) ∧
    ∀ type : FieldType,
      (type.guardText = .ok none ↔
        type.condition = none ∧ type.since = none ∧ type.last = none) ∧
      ∀ condition text, type.condition = some condition →
        (type.since ≠ none ∨ type.last ≠ none) → type.guardText = .ok (some text) →
          ∃ generated range check, Expr.generate condition = .ok generated ∧
            type.versionRange = .ok range ∧ range.render? = some check ∧
            text = "(" ++ generated ++ ") && (" ++ check ++ ")" ∧
            outsideChars 0 text.toList = " && ".toList ∧
            ∀ {α : Type} {header : Version} (meaning : Interpretation α header) (answer : Bool),
              meaning.Answers text answer ↔ ∃ holds, meaning.Answers generated holds ∧
                answer = (holds && range.contains header) := by
  refine ⟨?_, fun type => ⟨type.guardText_eq_none_iff, ?_⟩⟩
  · intro text generated hgenerated
    have hclean := Expr.isClean_of_generate hgenerated
    exact ⟨balanced_iff_fits.mp hclean.balanced, hclean.tokenless⟩
  · intro condition text hcondition hbound htext
    obtain ⟨generated, range, check, hgenerated, hrange, hcheck, rfl⟩ :=
      guardText_eq_some hcondition hbound htext
    have hleft := (Expr.isClean_of_generate hgenerated).balanced
    have hright := VersionRange.balanced_of_render? hcheck
    refine ⟨generated, range, check, hgenerated, hrange, hcheck, rfl, ?_, ?_⟩
    · have hgroups := outsideChars_groupsText hleft hright .and
      simpa [groupsText, grouped, Operator.native] using hgroups
    · intro α header meaning answer
      rw [meaning.answers_groups_iff hleft hright]
      simp only [meaning.answers_check_iff hcheck]
      constructor
      · rintro ⟨holds, _, hholds, rfl, rfl⟩
        exact ⟨holds, hholds, rfl⟩
      · rintro ⟨holds, hholds, rfl⟩
        exact ⟨holds, _, hholds, rfl, rfl⟩

end FieldType

/-- The values of names that stand for truth values, some of which hold, and of versions. -/
def Interpretation.ofNames (header : Version) (holds : List Char → Bool) :
    Interpretation (Bool ⊕ Version) header where
  operand text := ((header.ofOperand? text).map .inr).getD (.inl (holds text))
  unary _ value := value
  binary
    | .and, a, b => .inl (a.elim id (fun _ => true) && b.elim id (fun _ => true))
    | .or, a, b => .inl (a.elim id (fun _ => true) || b.elim id (fun _ => true))
    | .le, .inr lower, .inr upper => .inl (decide (lower ≤ upper))
    | _, _, _ => .inl false
  truth := Sum.elim id fun _ => true
  truth_and _ _ := rfl
  truth_le hlhs hrhs := by simp [hlhs, hrhs]

namespace FieldType

/-- A field with a condition of two names and a first version. -/
def guardedType : FieldType :=
  { base := "f32", condition := some "Has Normals #OR# Has Colors", since := some "10.1.0.0" }

/-- A condition that alone would bind more loosely than `&&` still only holds together with the
version. -/
theorem guardText_isolated_guardedType :
    ∃ generated text, Expr.generate "Has Normals #OR# Has Colors" = .ok generated ∧
      Fits generated.toList ∧ guardedType.guardText = .ok (some text) ∧
      outsideChars 0 text.toList = " && ".toList ∧
      (Interpretation.ofNames ⟨10, 1, 0, 0⟩ (· == "has_normals".toList)).Answers text true ∧
      (Interpretation.ofNames ⟨10, 0, 1, 0⟩ (· == "has_normals".toList)).Answers text false := by
  have hfound : matchShape? "Has Normals #OR# Has Colors".toList =
      some ⟨.bare, [], "Has Normals".toList, .symbolic .or, "Has Colors".toList⟩ := by
    decide +kernel
  let expr : Expr :=
    .binary (.reference (.field "has_normals")) .or (.reference (.field "has_colors"))
  obtain ⟨_, hparse, rfl⟩ :
      ∃ found, Expr.parse "Has Normals #OR# Has Colors" = .ok found ∧ found = expr :=
    ⟨_, Expr.parseChars_eq_ok_iff.mpr
      (.node hfound (by decide) (.leaf (by decide +kernel)) (.leaf (by decide +kernel))),
      by decide +kernel⟩
  have hgenerate : Expr.generate "Has Normals #OR# Has Colors" = .ok expr.render :=
    Expr.generate_eq_ok_iff.mpr ⟨expr, hparse, rfl⟩
  have hrange : guardedType.versionRange = .ok ⟨some ⟨10, 1, 0, 0⟩, none⟩ := by decide +kernel
  obtain ⟨text, htext⟩ : ∃ text, guardedType.guardText = .ok (some text) :=
    ⟨_, map_eq_ok_iff.mpr ⟨⟨some expr, ⟨some ⟨10, 1, 0, 0⟩, none⟩⟩,
      guard_eq_ok_iff.mpr ⟨readOptional_some_eq_ok_iff.mpr ⟨expr, hparse, rfl⟩, hrange⟩, rfl⟩⟩
  have hreading : IsReading expr.render.toList expr.grouping := by
    refine (Expr.isReading_grouping_iff expr).mpr ⟨?_, ?_⟩
    · unfold Expr.HasReadableOperands
      decide +kernel
    · decide +kernel
  obtain ⟨generated, range, check, hgenerated, hrange', -, -, houtside, hanswers⟩ :=
    (guardText_isolated.2 guardedType).2 _ text rfl (.inl nofun) htext
  cases hgenerate.symm.trans hgenerated
  cases hrange.symm.trans hrange'
  refine ⟨expr.render, text, hgenerate, (guardText_isolated.1 _ _ hgenerate).1, htext, houtside,
    (hanswers _ _).mpr ⟨true, ⟨_, hreading, ?_⟩, ?_⟩,
    (hanswers _ _).mpr ⟨true, ⟨_, hreading, ?_⟩, ?_⟩⟩
  all_goals decide +kernel

end FieldType

end NifBindings
