import NifBindings.Proofs.Source.Scope

/-!
# Reading by lines

What a structure reads can be told from its lines: the fields that are declared there, one behind
the other, but for those behind a guard that fails. A guard is a text, and what it answers is what
its condition and its versions say, as long as the operators of the condition apply in the text to
the operands that they were made for. Then the lines read the fields that are present, in order.
-/

namespace NifBindings

variable {α : Type} {header : Version}

namespace Expr

/-- The parentheses of an expression fit if its operands can be read. -/
theorem HasReadableOperands.balanced_render {expr : Expr} (h : expr.HasReadableOperands) :
    balanced expr.render.toList = true := by
  have hleaf {text : List Char} (htext : IsOperand (takeUnary text).2) : balanced text = true := by
    rw [← takeUnary_append text, balanced_append (balanced_signs _)]
    exact htext.balanced
  induction expr with
  | numeral digits =>
    refine hleaf (h _ ?_)
    simp [grouping, phrase, Phrase.ofLeaf, Phrase.grouping, Grouping.operands, render]
  | reference target =>
    refine hleaf (h _ ?_)
    simp [grouping, phrase, Phrase.ofLeaf, Phrase.grouping, Grouping.operands, render]
  | group inner ih =>
    have htext : (Expr.group inner).render.toList = grouped inner.render.toList := by
      simp [render, grouped]
    rw [htext]
    exact balanced_grouped (ih h)
  | binary lhs op rhs ihlhs ihrhs =>
    have htext : (Expr.binary lhs op rhs).render.toList =
        lhs.render.toList ++ ' ' :: (op.native.toList ++ ' ' :: rhs.render.toList) := by
      simp [render]
    rw [htext]
    exact balanced_binary (ihlhs fun text htext => h text (List.mem_append_left _ htext))
      (ihrhs fun text htext => h text (List.mem_append_right _ htext)) op
  | unary ops inner ih =>
    have htext : (Expr.unary ops inner).render.toList =
        ops.map UnaryOperator.char ++ grouped inner.render.toList := by
      simp [render, grouped]
    have hinner : inner.HasReadableOperands := fun text htext => h text (by
      rwa [grouping, phrase, Phrase.grouping, Grouping.operands_signed])
    rw [htext, balanced_append (balanced_signs ops)]
    exact balanced_grouped (ih hinner)

end Expr

namespace Interpretation

/-- The meaning of expressions that goes with one of texts, if `||` is a disjunction there. -/
def toMeaning (interpretation : Interpretation α header)
    (truth_or : ∀ a b, interpretation.truth (interpretation.binary .or a b) =
      (interpretation.truth a || interpretation.truth b)) : Meaning α where
  numeral digits := interpretation.value (Phrase.ofLeaf digits.toList).grouping
  reference target := interpretation.value (Phrase.ofLeaf target.render.toList).grouping
  unary := interpretation.unary
  binary := interpretation.binary
  truth := interpretation.truth
  truth_or := truth_or

variable (interpretation : Interpretation α header)
  (truth_or : ∀ a b, interpretation.truth (interpretation.binary .or a b) =
    (interpretation.truth a || interpretation.truth b))

/-- Signs apply one behind the other. -/
theorem value_signed (signs : List UnaryOperator) (inner : Grouping) :
    interpretation.value (.signed signs inner) =
      signs.foldr interpretation.unary (interpretation.value inner) := by
  induction signs with
  | nil => rfl
  | cons sign signs ih =>
    rw [List.foldr_cons, ← ih]
    rfl

/-- An expression has the value of what its operators apply to. -/
theorem value_grouping (expr : Expr) :
    interpretation.value expr.grouping = expr.value (interpretation.toMeaning truth_or) := by
  induction expr with
  | numeral | reference => rfl
  | group inner ih => exact ih
  | binary lhs op rhs ihlhs ihrhs =>
    rw [Expr.value, ← ihlhs, ← ihrhs]
    rfl
  | unary ops inner ih =>
    rw [Expr.value, ← ih]
    exact interpretation.value_signed ops inner.grouping

/-- A text that is read with the operands it was made for answers what its expression says. -/
theorem answers_render_iff {expr : Expr} (h : IsReading expr.render.toList expr.grouping)
    (answer : Bool) :
    interpretation.Answers expr.render answer ↔
      answer = interpretation.truth (expr.value (interpretation.toMeaning truth_or)) := by
  rw [← interpretation.value_grouping truth_or]
  constructor
  · rintro ⟨grouping, hgrouping, rfl⟩
    rw [hgrouping.unique h]
  · rintro rfl
    exact ⟨_, h, rfl⟩

end Interpretation

namespace Guard

variable {guard : Guard} {text : String}

/-- Whether the operators in the text of a condition apply to the operands that they were made
for. -/
def IsReadable (guard : Guard) : Prop :=
  ∀ expr ∈ guard.condition, IsReading expr.render.toList expr.grouping

/-- A range without a check contains every version. -/
theorem contains_of_render?_eq_none {range : VersionRange} (h : range.render? = none)
    (version : Version) : range.contains version = true := by
  obtain ⟨hfirst, hlast⟩ := VersionRange.render?_eq_none_iff.mp h
  rw [VersionRange.contains_eq, hfirst, hlast]
  rfl

/-- A guard without a text always holds. -/
theorem holds_of_render?_eq_none (h : guard.render? = none) (meaning : Meaning α)
    (version : Version) : guard.holds meaning version = true := by
  obtain ⟨hcondition, hrange⟩ := Guard.render?_eq_none_iff.mp h
  rw [holds, hcondition, contains_of_render?_eq_none hrange]
  rfl

/-- The text of a readable guard answers whether the guard holds. -/
theorem IsReadable.answers_iff (hreadable : guard.IsReadable) (h : guard.render? = some text)
    (interpretation : Interpretation α header)
    (truth_or : ∀ a b, interpretation.truth (interpretation.binary .or a b) =
      (interpretation.truth a || interpretation.truth b)) (answer : Bool) :
    interpretation.Answers text answer ↔
      answer = guard.holds (interpretation.toMeaning truth_or) header := by
  obtain ⟨condition, range⟩ := guard
  cases condition with
  | none =>
    rw [holds, conditionTruth, Option.all_none, Bool.and_true]
    exact interpretation.answers_check_iff h answer
  | some expr =>
    have hreading : IsReading expr.render.toList expr.grouping := hreadable expr rfl
    have hexpr := interpretation.answers_render_iff truth_or hreading
    rw [holds, conditionTruth, Option.all_some]
    cases hrange : range.render? with
    | none =>
      rw [render?, hrange] at h
      cases h
      rw [contains_of_render?_eq_none hrange, Bool.true_and]
      exact hexpr answer
    | some check =>
      rw [render?, hrange] at h
      cases h
      have hoperands := ((Expr.isReading_grouping_iff expr).mp hreading).1
      rw [interpretation.answers_groups_iff hoperands.balanced_render
        (VersionRange.balanced_of_render? hrange), Bool.and_comm]
      simp only [hexpr, interpretation.answers_check_iff hrange]
      constructor
      · rintro ⟨_, _, rfl, rfl, rfl⟩
        rfl
      · rintro rfl
        exact ⟨_, _, rfl, rfl, rfl⟩

end Guard

/-- A text answers in one way at most. -/
theorem Interpretation.Answers.unique {interpretation : Interpretation α header} {text : String}
    {a b : Bool} (ha : interpretation.Answers text a) (hb : interpretation.Answers text b) :
    a = b := by
  obtain ⟨grouping, hgrouping, rfl⟩ := ha
  obtain ⟨other, hother, rfl⟩ := hb
  rw [hgrouping.unique hother]

/-- A field is present exactly if it has no guard, or one whose text answers that it is. -/
theorem FieldType.isPresent_iff_answers {type : FieldType} {guard : Guard}
    (hguard : type.guard = .ok guard) (hreadable : guard.IsReadable)
    (interpretation : Interpretation α header)
    (truth_or : ∀ a b, interpretation.truth (interpretation.binary .or a b) =
      (interpretation.truth a || interpretation.truth b)) :
    type.isPresent (interpretation.toMeaning truth_or) header ↔
      ∀ text, type.guardText = .ok (some text) → interpretation.Answers text true := by
  have hpresent : type.isPresent (interpretation.toMeaning truth_or) header ↔
      guard.holds (interpretation.toMeaning truth_or) header = true := by
    simp [isPresent, hguard]
  rw [hpresent, guardText, hguard]
  cases htext : guard.render? with
  | none =>
    refine iff_of_true (Guard.holds_of_render?_eq_none htext _ _) fun text hsome => ?_
    cases htext.symm.trans (Except.ok.inj hsome)
  | some text =>
    have hanswers := hreadable.answers_iff htext interpretation truth_or true
    constructor
    · intro hholds other hsome
      cases htext.symm.trans (Except.ok.inj hsome)
      exact hanswers.mpr hholds.symm
    · intro hall
      exact (hanswers.mp (hall text (congrArg Except.ok htext))).symm

/-- The guard of a field is readable if its condition is written without a point, and the operands
in it can be read. -/
theorem FieldType.isReadable_of_point_not_mem {type : FieldType} {guard : Guard}
    (hguard : type.guard = .ok guard) (hpoint : ∀ text ∈ type.condition, '.' ∉ text.toList)
    (hoperands : ∀ expr ∈ guard.condition, expr.HasReadableOperands) : guard.IsReadable := by
  intro expr hexpr
  have hcondition := (guard_eq_ok_iff.mp hguard).1
  rw [conditionExpr, Option.mem_def.mp hexpr] at hcondition
  cases htext : type.condition with
  | none =>
    rw [htext] at hcondition
    cases hcondition
  | some text =>
    rw [htext] at hcondition
    obtain ⟨found, hparse, hfound⟩ := readOptional_some_eq_ok_iff.mp hcondition
    cases hfound
    exact Expr.isReading_of_point_not_mem hparse (hpoint text htext) (hoperands expr hexpr)

/-- What the reader of a structure reads, line by line: the declarations of fields but for those
behind a guard that fails. Lines that are not indented belong to no field. -/
inductive ReadsLines (interpretation : Interpretation α header) :
    List String → List String → Prop
  | nil : ReadsLines interpretation [] []
  | other {line : String} {lines read : List String} (hline : line.toList.head? ≠ some ' ')
      (h : ReadsLines interpretation lines read) : ReadsLines interpretation (line :: lines) read
  | present {declaration : String} {annotations lines read : List String}
      (hannotations : ∀ line ∈ annotations, Text.beginsWith line "    #[" = true)
      (hdeclaration : Text.beginsWith declaration "    pub " = true)
      (hguards : ∀ line ∈ FieldLine.guard.among annotations, ∃ text,
        line = FieldDeclaration.guardLine text ∧ interpretation.Answers text true)
      (h : ReadsLines interpretation lines read) :
      ReadsLines interpretation (annotations ++ declaration :: lines) (declaration :: read)
  | absent {declaration text : String} {annotations lines read : List String}
      (hannotations : ∀ line ∈ annotations, Text.beginsWith line "    #[" = true)
      (hdeclaration : Text.beginsWith declaration "    pub " = true)
      (hguard : FieldDeclaration.guardLine text ∈ annotations)
      (hanswers : interpretation.Answers text false) (h : ReadsLines interpretation lines read) :
      ReadsLines interpretation (annotations ++ declaration :: lines) read

/-- The annotations of a field stand in front of its declaration, with the guard among them. -/
theorem FieldDeclaration.exists_annotations (field : FieldDeclaration) :
    ∃ annotations, field.lines = annotations ++ [field.declarationLine] ∧
      (∀ line ∈ annotations, Text.beginsWith line "    #[" = true) ∧
      FieldLine.guard.among annotations = (field.guard.render?.map guardLine).toList := by
  refine ⟨[.count, .mapping, .guard, .arguments].flatMap field.linesOf, ?_, ?_, ?_⟩
  · simp [lines, linesOf]
  · intro line hline
    obtain ⟨kind, hkind, hmem⟩ := List.mem_flatMap.mp hline
    have hopening : ∀ kind ∈ [FieldLine.count, .mapping, .guard, .arguments],
        "    #[".toList <+: kind.opening.toList := by
      decide
    rw [Text.beginsWith, List.isPrefixOf_iff_prefix]
    exact (hopening kind hkind).trans
      (List.isPrefixOf_iff_prefix.mp (opening_of_mem_linesOf hmem))
  · have hkinds (other : FieldLine) : FieldLine.guard.among (field.linesOf other) =
        if .guard = other then field.linesOf other else [] :=
      FieldLine.among_of_opening (fun _ => opening_of_mem_linesOf) .guard
    have hnothing : FieldLine.guard.among [] = [] := rfl
    simp only [List.flatMap_cons, List.flatMap_nil, FieldLine.among_append, hkinds, hnothing]
    simp [linesOf]

namespace ReadsLines

variable {interpretation : Interpretation α header}
  (truth_or : ∀ a b, interpretation.truth (interpretation.binary .or a b) =
    (interpretation.truth a || interpretation.truth b)) {lines front read : List String}

/-- Lines that are not indented are passed over. -/
theorem append_others (hfront : ∀ line ∈ front, line.toList.head? ≠ some ' ')
    (h : ReadsLines interpretation lines read) :
    ReadsLines interpretation (front ++ lines) read := by
  induction front with
  | nil => exact h
  | cons line front ih =>
    obtain ⟨hline, hfront⟩ := List.forall_mem_cons.mp hfront
    exact .other hline (ih hfront)

/-- A field with a readable guard is read exactly if the guard holds. -/
theorem field_append {field : FieldDeclaration} (hreadable : field.guard.IsReadable)
    (h : ReadsLines interpretation lines read) :
    ReadsLines interpretation (field.lines ++ lines)
      (if field.guard.holds (interpretation.toMeaning truth_or) header then
        field.declarationLine :: read
      else read) := by
  obtain ⟨annotations, hlines, hannotations, hguards⟩ := field.exists_annotations
  have hmem : field.declarationLine ∈ field.linesOf .declaration := List.mem_singleton_self _
  have hdeclaration := FieldDeclaration.opening_of_mem_linesOf hmem
  rw [hlines, List.append_assoc]
  cases htext : field.guard.render? with
  | none =>
    rw [htext] at hguards
    rw [if_pos (Guard.holds_of_render?_eq_none htext _ _)]
    exact .present hannotations hdeclaration (by simp [hguards]) h
  | some text =>
    rw [htext] at hguards
    split
    next hholds =>
      refine .present hannotations hdeclaration (fun line hline => ?_) h
      rw [hguards] at hline
      exact ⟨text, List.mem_singleton.mp hline,
        (hreadable.answers_iff htext _ truth_or true).mpr hholds.symm⟩
    next hholds =>
      have hmem : FieldDeclaration.guardLine text ∈ FieldLine.guard.among annotations := by
        simp [hguards]
      refine .absent hannotations hdeclaration (List.mem_filter.mp hmem).1 ?_ h
      exact (hreadable.answers_iff htext _ truth_or false).mpr (by simpa using hholds)

/-- Of fields with readable guards, those that are present are read. -/
theorem fields_append {fields : List FieldDeclaration}
    (hreadable : ∀ field ∈ fields, field.guard.IsReadable)
    (h : ReadsLines interpretation lines read) :
    ReadsLines interpretation (fields.flatMap FieldDeclaration.lines ++ lines)
      ((fields.filter fun field =>
        field.guard.holds (interpretation.toMeaning truth_or) header).map
          FieldDeclaration.declarationLine ++ read) := by
  induction fields with
  | nil => exact h
  | cons field fields ih =>
    obtain ⟨hfield, hreadable⟩ := List.forall_mem_cons.mp hreadable
    have hlines := field_append truth_or hfield (ih hreadable)
    rw [List.flatMap_cons, List.append_assoc]
    by_cases hholds : field.guard.holds (interpretation.toMeaning truth_or) header = true
    · rw [if_pos hholds] at hlines
      rwa [List.filter_cons, if_pos hholds]
    · rw [if_neg hholds] at hlines
      rwa [List.filter_cons, if_neg hholds]

/-- The lines of a field are indented. -/
theorem head?_of_field {declaration line : String} {annotations rest : List String}
    (hannotations : ∀ line ∈ annotations, Text.beginsWith line "    #[" = true)
    (hdeclaration : Text.beginsWith declaration "    pub " = true)
    (h : annotations ++ declaration :: lines = line :: rest) : line.toList.head? = some ' ' := by
  have hindent {word : String} (hword : word.toList.head? = some ' ')
      (hbegins : Text.beginsWith line word = true) : line.toList.head? = some ' ' := by
    rw [Text.beginsWith, List.isPrefixOf_iff_prefix] at hbegins
    obtain ⟨back, hback⟩ := hbegins
    rw [← hback, List.head?_append, hword]
    rfl
  cases annotations with
  | nil =>
    obtain ⟨rfl, -⟩ := List.cons.inj h
    exact hindent (by decide) hdeclaration
  | cons annotation annotations =>
    obtain ⟨rfl, -⟩ := List.cons.inj h
    exact hindent (by decide) (hannotations annotation List.mem_cons_self)

/-- What is read does not depend on how the lines are divided among the fields. -/
theorem cases_field {declaration : String} {annotations : List String}
    (hannotations : ∀ line ∈ annotations, Text.beginsWith line "    #[" = true)
    (hdeclaration : Text.beginsWith declaration "    pub " = true)
    (h : ReadsLines interpretation (annotations ++ declaration :: lines) read) :
    ∃ rest, ReadsLines interpretation lines rest ∧
      ((read = declaration :: rest ∧ ∀ line ∈ FieldLine.guard.among annotations, ∃ text,
          line = FieldDeclaration.guardLine text ∧ interpretation.Answers text true) ∨
        (read = rest ∧ ∃ text, FieldDeclaration.guardLine text ∈ annotations ∧
          interpretation.Answers text false)) := by
  have hapart {line : String} (hpub : Text.beginsWith line "    pub " = true) :
      Text.beginsWith line "    #[" ≠ true := by
    rw [Text.beginsWith_eq_false hpub (by decide) (by decide)]
    decide
  have hsame {other : String} {others behind : List String}
      (hothers : ∀ line ∈ others, Text.beginsWith line "    #[" = true)
      (hother : Text.beginsWith other "    pub " = true)
      (hlines : others ++ other :: behind = annotations ++ declaration :: lines) :
      others = annotations ∧ other = declaration ∧ behind = lines := by
    rcases append_cons_cases hlines with hcut | ⟨more, hcut, -⟩ | ⟨more, hcut, -⟩
    · exact hcut
    · exact absurd (hannotations other (by simp [hcut])) (hapart hother)
    · exact absurd (hothers declaration (by simp [hcut])) (hapart hdeclaration)
  generalize hlines : annotations ++ declaration :: lines = all at h
  cases h with
  | nil => simp at hlines
  | other hline h => exact absurd (head?_of_field hannotations hdeclaration hlines) hline
  | present hothers hother hguards h =>
    obtain ⟨rfl, rfl, rfl⟩ := hsame hothers hother hlines.symm
    exact ⟨_, h, .inl ⟨rfl, hguards⟩⟩
  | absent hothers hother hguard hanswers h =>
    obtain ⟨rfl, rfl, rfl⟩ := hsame hothers hother hlines.symm
    exact ⟨_, h, .inr ⟨rfl, _, hguard, hanswers⟩⟩

/-- Lines are read in one way at most. -/
theorem unique {other : List String} (h : ReadsLines interpretation lines read)
    (hother : ReadsLines interpretation lines other) : read = other := by
  have hclash {annotations : List String} {text : String}
      (hpasses : ∀ line ∈ FieldLine.guard.among annotations, ∃ text,
        line = FieldDeclaration.guardLine text ∧ interpretation.Answers text true)
      (hguard : FieldDeclaration.guardLine text ∈ annotations)
      (hfails : interpretation.Answers text false) : False := by
    have hopening : Text.beginsWith (FieldDeclaration.guardLine text) "    #[br(if(" = true := by
      rw [FieldDeclaration.guardLine, String.append_assoc]
      exact Text.beginsWith_append _ _
    obtain ⟨same, hsame, hanswers⟩ := hpasses _ (List.mem_filter.mpr ⟨hguard, hopening⟩)
    obtain rfl : text = same := by simpa [FieldDeclaration.guardLine] using hsame
    cases hanswers.unique hfails
  induction h generalizing other with
  | nil =>
    generalize hlines : [] = lines at hother
    cases hother with
    | nil => rfl
    | other | present | absent => simp at hlines
  | @other line lines read hline h ih =>
    generalize hlines : line :: lines = all at hother
    cases hother with
    | nil => cases hlines
    | other _ hother =>
      obtain ⟨rfl, rfl⟩ := List.cons.inj hlines
      exact ih hother
    | present hannotations hdeclaration =>
      exact absurd (head?_of_field hannotations hdeclaration hlines.symm) hline
    | absent hannotations hdeclaration =>
      exact absurd (head?_of_field hannotations hdeclaration hlines.symm) hline
  | present hannotations hdeclaration hguards h ih =>
    obtain ⟨rest, hrest, ⟨rfl, -⟩ | ⟨rfl, text, hguard, hfails⟩⟩ :=
      cases_field hannotations hdeclaration hother
    · rw [ih hrest]
    · exact (hclash hguards hguard hfails).elim
  | absent hannotations hdeclaration hguard hfails h ih =>
    obtain ⟨rest, hrest, ⟨rfl, hguards⟩ | ⟨rfl, -⟩⟩ :=
      cases_field hannotations hdeclaration hother
    · exact (hclash hguards hguard hfails).elim
    · exact ih hrest

/-- Between the documentation and the last brace, a structure reads what it holds and those of its
fields that are present. -/
theorem structure_lines {doc base held : List String} {imports head : String}
    {fields : List FieldDeclaration} (hhead : head.toList.head? = some 'p')
    (himports : imports.toList.head? = some '#')
    (hbase : ∀ lines read, ReadsLines interpretation lines read →
      ReadsLines interpretation (base ++ lines) (held ++ read))
    (hreadable : ∀ field ∈ fields, field.guard.IsReadable) :
    ReadsLines interpretation (docComment "" doc ++
        ["#[binread]", "#[derive(Clone, Debug, PartialEq)]", imports, head] ++
        base ++ fields.flatMap FieldDeclaration.lines ++ ["\x7d", ""])
      (held ++ (fields.filter fun field =>
        field.guard.holds (interpretation.toMeaning truth_or) header).map
          FieldDeclaration.declarationLine) := by
  have hend : ReadsLines interpretation ["\x7d", ""] [] := .other (by simp) (.other (by simp) .nil)
  have hfields := hbase _ _ (fields_append truth_or hreadable hend)
  have hall := append_others (head?_ne_of_mem_front doc hhead himports) hfields
  rwa [List.append_nil, ← List.append_assoc, ← List.append_assoc] at hall

end ReadsLines

section Structures

variable {interpretation : Interpretation α header}
  (truth_or : ∀ a b, interpretation.truth (interpretation.binary .or a b) =
    (interpretation.truth a || interpretation.truth b))

/-- Whether some lines are those that a structure reads, and declare fields with these names. -/
def ReadsNames (interpretation : Interpretation α header) (lines names : List String) : Prop :=
  ∃ read, (∀ other, ReadsLines interpretation lines other ↔ other = read) ∧
    List.Forall₂ (fun line name => ∃ type, line = "    pub " ++ name ++ ": " ++ type ++ ",")
      read names

/-- The lines of a compound whose guards are readable read the fields that are present, in
order. -/
theorem CompoundDeclaration.readsNames_lines (compound : CompoundDeclaration)
    (hreadable : ∀ field ∈ compound.fields, field.guard.IsReadable) :
    ReadsNames interpretation compound.lines
      (readOrder (interpretation.toMeaning truth_or) header compound.fields) := by
  have hlines := @ReadsLines.structure_lines α header interpretation truth_or compound.doc [] [] _ _
    compound.fields compound.head?_headLine (head?_importLine compound.takesArgument)
    (fun _ _ h => h) hreadable
  rw [List.append_nil, List.nil_append] at hlines
  exact ⟨_, fun other => ⟨fun h => h.unique hlines, fun h => h ▸ hlines⟩,
    forall₂_declarationLine _⟩

/-- The lines of an object whose guards are readable read the parent, if it holds one, and the
fields that are present, in order. -/
theorem ObjectDeclaration.readsNames_lines (object : ObjectDeclaration)
    (hreadable : ∀ field ∈ object.fields, field.guard.IsReadable) :
    ReadsNames interpretation object.lines (object.scope.held ++
      readOrder (interpretation.toMeaning truth_or) header object.fields) := by
  have hlines (base held : List String)
      (hbase : ∀ lines read, ReadsLines interpretation lines read →
        ReadsLines interpretation (base ++ lines) (held ++ read)) :=
    @ReadsLines.structure_lines α header interpretation truth_or object.doc base held
      "#[br(import(_header_version: FileVersion))]" ("pub struct " ++ object.name ++ " \x7b")
      object.fields (by simp) (by simp) hbase hreadable
  have hread (held : List String)
      (hheld : List.Forall₂
        (fun line name => ∃ type, line = "    pub " ++ name ++ ": " ++ type ++ ",")
        held object.scope.held)
      (h : ReadsLines interpretation object.lines (held ++ (object.fields.filter fun field =>
        field.guard.holds (interpretation.toMeaning truth_or) header).map
          FieldDeclaration.declarationLine)) :
      ReadsNames interpretation object.lines (object.scope.held ++
        readOrder (interpretation.toMeaning truth_or) header object.fields) :=
    ⟨_, fun other => ⟨fun hother => hother.unique h, fun hother => hother ▸ h⟩,
      List.rel_append hheld (forall₂_declarationLine _)⟩
  cases hbase : object.base? with
  | none =>
    have hnothing := hlines [] [] fun _ _ h => h
    refine hread [] ?_ ?_
    · rw [scope, hbase]
      exact .nil
    · rw [lines, hbase]
      exact hnothing
  | some parent =>
    have hannotations : ∀ line ∈ ["    #[br(args(_header_version,))]"],
        Text.beginsWith line "    #[" = true := by
      decide
    have hguards : FieldLine.guard.among ["    #[br(args(_header_version,))]"] = [] := by decide
    have hparent := hlines (baseLines parent) ["    pub base: " ++ parent ++ ","] fun _ _ h =>
      .present hannotations (beginsWith_baseLine parent) (by simp [hguards]) h
    refine hread ["    pub base: " ++ parent ++ ","] ?_ ?_
    · rw [scope, hbase]
      exact .cons ⟨parent, baseLine_eq parent⟩ .nil
    · rw [lines, hbase]
      exact hparent

end Structures

end NifBindings
