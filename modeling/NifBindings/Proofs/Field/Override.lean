import NifBindings.Proofs.Field.Outcome

/-!
# Corrected fields

A correction that drops the condition of a field changes every declaration of the field before the
declarations are compared. All but the first are dropped then, whatever their shapes, so that the
first one is kept and no conflict is found about the field. A declaration meets only those of its
own name, so that the other fields and the other findings are those without the correction.
-/

namespace NifBindings

/-- The profile without the corrections of a field. -/
def Profile.withoutOverride (profile : Profile) (owner field : String) : Profile :=
  { profile with
    fieldOverrides := profile.fieldOverrides.filter fun rule =>
      !(rule.owner == owner && rule.field == field) }

/-- A declaration with a correction applied, if it is one of the corrected field. -/
def FieldOverride.correct (rule : FieldOverride) (declaration : String × FieldType) :
    String × FieldType :=
  if declaration.1 = rule.field then (declaration.1, rule.apply declaration.2) else declaration

/-- Whether a finding is about a field of a structure. -/
def Diagnostic.concerns (owner field : String) : Diagnostic → Bool
  | .fieldConflict other name _ _ => other == owner && name == field
  | .unresolvedParent .. => false

/-- Whether a member declares a field. -/
def Element.declaresField (field : String) (member : Element) : Bool :=
  (member.get? "name").map fieldName == some field

/-- Whether two checks end with the same error, or with values that are related. -/
inductive Alike {α : Type} (related : α → α → Prop) :
    Except InputError α → Except InputError α → Prop
  | ok {a b : α} (h : related a b) : Alike related (.ok a) (.ok b)
  | error (error : InputError) : Alike related (.error error) (.error error)

/-- Checks behind alike ones are alike if they are for related values. -/
theorem Alike.bind {α β : Type} {related : α → α → Prop} {other : β → β → Prop}
    {a b : Except InputError α} (h : Alike related a b) {f g : α → Except InputError β}
    (hnext : ∀ {x y}, related x y → Alike other (f x) (g y)) :
    Alike other (a >>= f) (b >>= g) := by
  cases h with
  | ok h => exact hnext h
  | error error => exact .error error

namespace Profile

/-- No correction of the field is left. -/
theorem fieldOverride?_withoutOverride (profile : Profile) (owner field : String) :
    (profile.withoutOverride owner field).fieldOverride? owner field = none := by
  unfold fieldOverride? withoutOverride
  rw [List.find?_eq_none]
  intro rule hrule hfield
  have hkept := (List.mem_filter.mp hrule).2
  rw [hfield] at hkept
  cases hkept

/-- The corrections of any other field are left. -/
theorem fieldOverride?_withoutOverride_of_ne {profile : Profile}
    {owner field otherOwner otherField : String} (h : otherOwner ≠ owner ∨ otherField ≠ field) :
    (profile.withoutOverride owner field).fieldOverride? otherOwner otherField =
      profile.fieldOverride? otherOwner otherField := by
  unfold fieldOverride? withoutOverride
  rw [List.find?_filter]
  congr 1
  funext rule
  rw [Bool.eq_iff_iff]
  simp only [decide_eq_true_eq, Bool.not_eq_true', Bool.and_eq_false_iff, beq_eq_false_iff_ne,
    Bool.and_eq_true, beq_iff_eq]
  constructor
  · exact fun hrule => hrule.2
  · rintro ⟨rfl, rfl⟩
    exact ⟨h, rfl, rfl⟩

end Profile

section Declarations

variable {profile : Profile} {rule : FieldOverride} {name : String}

/-- A member is declared with the correction as without it, and is then corrected. -/
theorem declaredField_eq_map (hrule : profile.fieldOverride? rule.owner rule.field = some rule)
    (member : Element) :
    declaredField profile rule.owner member =
      (declaredField (profile.withoutOverride rule.owner rule.field) rule.owner member).map
        rule.correct := by
  unfold declaredField
  cases hname : member.require "name" with
  | error error => rfl
  | ok written =>
    cases htype : FieldType.ofAttributes member.tag member.attributes with
    | error error => rfl
    | ok type =>
      simp only [Bind.bind, Except.bind]
      by_cases hfield : fieldName written = rule.field
      · rw [hfield, hrule, Profile.fieldOverride?_withoutOverride]
        simp [Except.map, FieldOverride.correct]
      · rw [Profile.fieldOverride?_withoutOverride_of_ne (.inr hfield)]
        cases profile.fieldOverride? rule.owner (fieldName written) <;>
          simp [Except.map, FieldOverride.correct, hfield]

/-- The declarations of an entry are those without the correction, corrected. -/
theorem declaredFields_eq_map (hrule : profile.fieldOverride? rule.owner rule.field = some rule)
    (entry : Element) :
    declaredFields profile rule.owner entry =
      (declaredFields (profile.withoutOverride rule.owner rule.field) rule.owner entry).map
        (List.map rule.correct) := by
  have hmembers : (profile.withoutOverride rule.owner rule.field).emittedMembers entry =
      profile.emittedMembers entry := rfl
  unfold declaredFields
  rw [hmembers]
  cases profile.emittedMembers entry with
  | error error => rfl
  | ok members => exact mapM_eq_map members (declaredField_eq_map hrule)

/-- A correction leaves the names as they are. -/
theorem FieldOverride.correct_fst (rule : FieldOverride) (declaration : String × FieldType) :
    (rule.correct declaration).1 = declaration.1 := by
  unfold correct
  split <;> rfl

/-- A correction leaves the declarations of any other field as they are. -/
theorem declaredUnder_correct_of_ne (hname : name ≠ rule.field)
    (declarations : List (String × FieldType)) :
    declaredUnder name (declarations.map rule.correct) = declaredUnder name declarations := by
  induction declarations with
  | nil => rfl
  | cons declaration rest ih =>
    unfold declaredUnder at ih ⊢
    by_cases hfirst : declaration.1 = name
    · have hother : rule.correct declaration = declaration :=
        if_neg fun hfield => hname (hfirst.symm.trans hfield)
      simp [hother, hfirst, ih]
    · simp [rule.correct_fst, hfirst, ih]

/-- A correction is applied to all declarations of its field. -/
theorem declaredUnder_correct (rule : FieldOverride) (declarations : List (String × FieldType)) :
    declaredUnder rule.field (declarations.map rule.correct) =
      (declaredUnder rule.field declarations).map rule.apply := by
  induction declarations with
  | nil => rfl
  | cons declaration rest ih =>
    unfold declaredUnder at ih ⊢
    by_cases hfirst : declaration.1 = rule.field
    · have hcorrect : rule.correct declaration = (declaration.1, rule.apply declaration.2) :=
        if_pos hfirst
      simp [hcorrect, hfirst, ih]
    · simp [rule.correct_fst, hfirst, ih]

section Clearing

variable (hclear : rule.clearCondition = true)
include hclear

/-- A cleared type has no condition. -/
theorem FieldOverride.condition_apply (type : FieldType) : (rule.apply type).condition = none :=
  if_pos hclear

/-- Of cleared types the first one is kept as it is. -/
theorem collapsed?_map_apply (types : List FieldType) :
    collapsed? (types.map rule.apply) = types.head?.map rule.apply := by
  cases types with
  | nil => rfl
  | cons first later =>
    have hnone := FieldOverride.condition_apply hclear first
    have hjoined : joinedCondition (rule.apply first ::
        (later.map rule.apply).filter (rule.apply first).matchesShape) = none :=
      joinedCondition_eq_none_iff.mpr ⟨_, List.mem_cons_self, hnone⟩
    rw [List.map_cons, collapsed?, hjoined, ← hnone]
    rfl

/-- Behind corrected declarations a corrected one meets no conflict if it is of the corrected field,
and otherwise what it meets without the correction. -/
theorem conflictBehind?_correct (earlier : List (String × FieldType))
    (declaration : String × FieldType) :
    conflictBehind? rule.owner (earlier.map rule.correct) (rule.correct declaration) =
      if declaration.1 = rule.field then none
      else conflictBehind? rule.owner earlier declaration := by
  by_cases hfield : declaration.1 = rule.field
  · have hcorrect : rule.correct declaration = (rule.field, rule.apply declaration.2) := by
      rw [FieldOverride.correct, if_pos hfield, hfield]
    rw [if_pos hfield, hcorrect, conflictBehind?, declaredUnder_correct,
      collapsed?_map_apply hclear]
    cases (declaredUnder rule.field earlier).head? with
    | none => rfl
    | some first =>
      exact if_pos ⟨FieldOverride.condition_apply hclear _, FieldOverride.condition_apply hclear _⟩
  · have hcorrect : rule.correct declaration = declaration := if_neg hfield
    rw [if_neg hfield, hcorrect, conflictBehind?, conflictBehind?,
      declaredUnder_correct_of_ne hfield]

/-- Corrected declarations have the conflicts that are not about the corrected field. -/
theorem conflicts_correct (declarations : List (String × FieldType)) :
    conflicts rule.owner (declarations.map rule.correct) =
      (conflicts rule.owner declarations).filter fun finding =>
        !finding.concerns rule.owner rule.field := by
  induction declarations using List.reverseRecOn with
  | nil => rfl
  | append_singleton earlier declaration ih =>
    rw [List.map_append, List.map_singleton, conflicts_concat, conflicts_concat, ih,
      conflictBehind?_correct hclear, List.filter_append]
    congr 1
    cases hfinding : conflictBehind? rule.owner earlier declaration with
    | none => split <;> rfl
    | some finding =>
      obtain ⟨old, -, -, -, rfl⟩ := conflictBehind?_eq_some_iff.mp hfinding
      by_cases hfield : declaration.1 = rule.field
      · simp [hfield, Diagnostic.concerns]
      · simp [hfield, Diagnostic.concerns]

end Clearing

/-- The first declaration of a field without a correction has the type that its member gives. -/
theorem head?_declaredUnder {owner field : String} {members : List Element}
    {declarations : List (String × FieldType)} {first : Element}
    (hnone : profile.fieldOverride? owner field = none)
    (hdeclared : members.mapM (declaredField profile owner) = .ok declarations)
    (hfirst : members.find? (·.declaresField field) = some first) :
    ∃ type, FieldType.ofAttributes first.tag first.attributes = .ok type ∧
      (declaredUnder field declarations).head? = some type := by
  induction members generalizing declarations with
  | nil => cases hfirst
  | cons member members ih =>
    rw [List.mapM_cons] at hdeclared
    obtain ⟨declaration, hdeclaration, hdeclared⟩ := bind_eq_ok_iff.mp hdeclared
    obtain ⟨rest, hrest, hdeclared⟩ := bind_eq_ok_iff.mp hdeclared
    cases hdeclared
    obtain ⟨written, hwritten, hdeclaration⟩ := bind_eq_ok_iff.mp hdeclaration
    obtain ⟨type, htype, hcorrected⟩ := bind_eq_ok_iff.mp hdeclaration
    have hdeclares : member.declaresField field = (fieldName written == field) := by
      rw [Element.declaresField, Element.require_eq_ok_iff.mp hwritten]
      rfl
    by_cases hfield : fieldName written = field
    · rw [List.find?_cons_of_pos (by simp [hdeclares, hfield])] at hfirst
      cases hfirst
      rw [hfield, hnone] at hcorrected
      cases hcorrected
      exact ⟨type, htype, by simp [declaredUnder]⟩
    · rw [List.find?_cons_of_neg (by simp [hdeclares, hfield])] at hfirst
      obtain ⟨kept, hkept, hhead⟩ := ih hrest hfirst
      have hname : declaration.1 ≠ field := by
        split at hcorrected <;> cases hcorrected <;> exact hfield
      refine ⟨kept, hkept, ?_⟩
      rw [← hhead]
      simp [declaredUnder, hname]

/-- What a correction does to the fields of an entry and to the findings about them. The corrected
field is its first emitted declaration, without a condition and with the count of the correction if
there is one. No finding is left about it, and nothing else changes. -/
structure OverrideEffect (profile : Profile) (rule : FieldOverride) (entry : Element)
    (corrected plain : FieldMap × List Diagnostic) : Prop where
  keys_eq : corrected.1.keys = plain.1.keys
  get?_other : ∀ name ≠ rule.field, corrected.1.get? name = plain.1.get? name
  get?_field : ∀ {members first}, profile.emittedMembers entry = .ok members →
    members.find? (·.declaresField rule.field) = some first →
      ∃ type, FieldType.ofAttributes first.tag first.attributes = .ok type ∧
        corrected.1.get? rule.field =
          some { type with length := rule.length.or type.length, condition := none }
  findings_eq : corrected.2 =
    plain.2.filter fun finding => !finding.concerns rule.owner rule.field

/-- The fields of an entry and the findings about them, or the error, come from its declarations. -/
theorem readFields_eq_map (profile : Profile) (owner : String) (entry : Element) :
    readFields profile owner entry = (declaredFields profile owner entry).map fun declarations =>
      (FieldMap.ofDeclarations declarations, conflicts owner declarations) := by
  unfold readFields declaredFields
  cases profile.emittedMembers entry with
  | error error => rfl
  | ok members =>
    simp only [Bind.bind, Except.bind]
    cases members.mapM (declaredField profile owner) with
    | error error => rfl
    | ok declarations =>
      have hdeclare : declareAll owner OrderedMap.empty declarations =
          (FieldMap.ofDeclarations declarations, conflicts owner declarations) :=
        Prod.ext (FieldMap.declareAll_fst owner declarations) (declareAll_snd owner declarations)
      exact congrArg Except.ok hdeclare

/-- A correction decides nothing about whether the fields of an entry can be read. -/
theorem alike_readFields (hrule : profile.fieldOverride? rule.owner rule.field = some rule)
    (hclear : rule.clearCondition = true) (entry : Element) :
    Alike (OverrideEffect profile rule entry) (readFields profile rule.owner entry)
      (readFields (profile.withoutOverride rule.owner rule.field) rule.owner entry) := by
  rw [readFields_eq_map, readFields_eq_map, declaredFields_eq_map hrule]
  cases hdeclared :
      declaredFields (profile.withoutOverride rule.owner rule.field) rule.owner entry with
  | error error => exact .error error
  | ok declarations =>
    refine .ok ⟨?_, fun name hname => ?_, fun {members first} hmembers hfirst => ?_,
      conflicts_correct hclear declarations⟩
    · have hnames : (declarations.map rule.correct).map Prod.fst = declarations.map Prod.fst := by
        simp [FieldOverride.correct_fst]
      rw [FieldMap.keys_ofDeclarations, FieldMap.keys_ofDeclarations, hnames]
    · rw [FieldMap.get?_ofDeclarations, FieldMap.get?_ofDeclarations,
        declaredUnder_correct_of_ne hname]
    · obtain ⟨others, hothers, hdeclared⟩ := bind_eq_ok_iff.mp hdeclared
      cases hmembers.symm.trans hothers
      obtain ⟨type, htype, hhead⟩ :=
        head?_declaredUnder (profile.fieldOverride?_withoutOverride _ _) hdeclared hfirst
      refine ⟨type, htype, ?_⟩
      rw [FieldMap.get?_ofDeclarations, declaredUnder_correct, collapsed?_map_apply hclear, hhead,
        Option.map_some, FieldOverride.apply, if_pos hclear]

/-- The corrections of a field of one structure mean nothing for another structure. -/
theorem readFields_withoutOverride_of_ne {owner other field : String} (hother : other ≠ owner)
    (entry : Element) :
    readFields (profile.withoutOverride owner field) other entry =
      readFields profile other entry := by
  have hdeclared : declaredField (profile.withoutOverride owner field) other =
      declaredField profile other := by
    funext member
    unfold declaredField
    simp only [Profile.fieldOverride?_withoutOverride_of_ne (.inl hother)]
  have hmembers : (profile.withoutOverride owner field).emittedMembers entry =
      profile.emittedMembers entry := rfl
  unfold readFields
  rw [hmembers, hdeclared]

/-- A correction of a field of a compound changes nothing else about it. -/
theorem Compound.alike_ofElement {entry : Element}
    (hrule : profile.fieldOverride? rule.owner rule.field = some rule)
    (hclear : rule.clearCondition = true)
    (howner : (entry.get? "name").map typeName = some rule.owner) :
    Alike (fun read other => read.1 = { other.1 with fields := read.1.fields } ∧
        OverrideEffect profile rule entry (read.1.fields, read.2) (other.1.fields, other.2))
      (ofElement profile entry)
      (ofElement (profile.withoutOverride rule.owner rule.field) entry) := by
  obtain ⟨written, hwritten, hname⟩ := Option.map_eq_some_iff.mp howner
  have halike := alike_readFields hrule hclear entry
  unfold ofElement
  rw [Element.require_eq_ok_iff.mpr hwritten]
  rw [← hname] at halike ⊢
  exact halike.bind fun heffect => .ok ⟨rfl, heffect⟩

/-- A correction of a field of another compound changes nothing. -/
theorem Compound.ofElement_withoutOverride {entry : Element} {owner field : String}
    (howner : (entry.get? "name").map typeName ≠ some owner) :
    ofElement (profile.withoutOverride owner field) entry = ofElement profile entry := by
  unfold ofElement
  cases hname : entry.require "name" with
  | error error => rfl
  | ok written =>
    rw [Element.require_eq_ok_iff.mp hname, Option.map_some, ne_eq, Option.some.injEq] at howner
    simp only [Bind.bind, Except.bind, readFields_withoutOverride_of_ne howner]

/-- A correction of a field of an object changes nothing else about it. -/
theorem NiObject.alike_ofElement {entry : Element}
    (hrule : profile.fieldOverride? rule.owner rule.field = some rule)
    (hclear : rule.clearCondition = true)
    (howner : (entry.get? "name").map structureName = some rule.owner) :
    Alike (fun read other => read.1 = { other.1 with fields := read.1.fields } ∧
        OverrideEffect profile rule entry (read.1.fields, read.2) (other.1.fields, other.2))
      (ofElement profile entry)
      (ofElement (profile.withoutOverride rule.owner rule.field) entry) := by
  obtain ⟨written, hwritten, hname⟩ := Option.map_eq_some_iff.mp howner
  have halike := alike_readFields hrule hclear entry
  unfold ofElement
  rw [Element.require_eq_ok_iff.mpr hwritten]
  cases entry.require "inherit" with
  | error error => exact .error error
  | ok inherit =>
    rw [← hname] at halike ⊢
    exact halike.bind fun heffect => .ok ⟨rfl, heffect⟩

/-- A correction of a field of another object changes nothing. -/
theorem NiObject.ofElement_withoutOverride {entry : Element} {owner field : String}
    (howner : (entry.get? "name").map structureName ≠ some owner) :
    ofElement (profile.withoutOverride owner field) entry = ofElement profile entry := by
  unfold ofElement
  cases hname : entry.require "name" with
  | error error => rfl
  | ok written =>
    rw [Element.require_eq_ok_iff.mp hname, Option.map_some, ne_eq, Option.some.injEq] at howner
    simp only [Bind.bind, Except.bind, readFields_withoutOverride_of_ne howner]
    rfl

/-- A correction that drops a condition decides nothing about whether a compound or an object can be
read. Of the structure that it is for, the corrected field is its first emitted declaration without
a condition and with the count of the correction, and it is in no conflict, while the other fields,
their order, the other findings and all else stay as they are. No other structure changes. -/
theorem ofElement_override (hrule : profile.fieldOverride? rule.owner rule.field = some rule)
    (hclear : rule.clearCondition = true) (entry : Element) :
    let plain := profile.withoutOverride rule.owner rule.field
    ((entry.get? "name").map typeName = some rule.owner →
      Alike (fun read other => read.1 = { other.1 with fields := read.1.fields } ∧
          OverrideEffect profile rule entry (read.1.fields, read.2) (other.1.fields, other.2))
        (Compound.ofElement profile entry) (Compound.ofElement plain entry)) ∧
    ((entry.get? "name").map typeName ≠ some rule.owner →
      Compound.ofElement plain entry = Compound.ofElement profile entry) ∧
    ((entry.get? "name").map structureName = some rule.owner →
      Alike (fun read other => read.1 = { other.1 with fields := read.1.fields } ∧
          OverrideEffect profile rule entry (read.1.fields, read.2) (other.1.fields, other.2))
        (NiObject.ofElement profile entry) (NiObject.ofElement plain entry)) ∧
    ((entry.get? "name").map structureName ≠ some rule.owner →
      NiObject.ofElement plain entry = NiObject.ofElement profile entry) :=
  ⟨Compound.alike_ofElement hrule hclear, Compound.ofElement_withoutOverride,
    NiObject.alike_ofElement hrule hclear, NiObject.ofElement_withoutOverride⟩

end Declarations

/-- A member of an object that declares a field with a count, under a condition. -/
def countedMember (name type length condition : String) : Element where
  tag := "field"
  attributes := .ofList [("name", name), ("type", type), ("arr1", length), ("cond", condition)]
  text := ""
  children := []

/-- An object that declares each of two fields twice, with different counts and types. -/
def paletteEntry : Element where
  tag := "niobject"
  attributes := .ofList [("name", "NiPalette"), ("inherit", "NiObject")]
  text := ""
  children := [
    countedMember "Palette" "ByteColor4" "16" "Num Entries #EQ# 16",
    countedMember "Lookup" "uint" "4" "Has Alpha",
    countedMember "Palette" "ByteColor4" "256" "Num Entries #EQ# 256",
    countedMember "Lookup" "float" "4" "Has Colors"]

/-- The corrected palette is in no conflict, while that of the other field is still found. -/
theorem ofElement_override_palette :
    ∃ object findings other others,
      NiObject.ofElement .default paletteEntry = .ok (object, findings) ∧
      NiObject.ofElement (Profile.default.withoutOverride "NiPalette" "palette") paletteEntry =
        .ok (other, others) ∧
      others = [
        .fieldConflict "NiPalette" "palette" "Option<[ByteColor4; 16]>" "Option<[ByteColor4; 256]>",
        .fieldConflict "NiPalette" "lookup" "Option<[u32; 4]>" "Option<[f32; 4]>"] ∧
      findings = [.fieldConflict "NiPalette" "lookup" "Option<[u32; 4]>" "Option<[f32; 4]>"] ∧
      object.fields.keys = other.fields.keys ∧
      object.fields.get? "lookup" = other.fields.get? "lookup" ∧
      object.fields.get? "palette" =
        some { base := "ByteColor4", length := some "Num Entries" } := by
  let rule : FieldOverride := ⟨"NiPalette", "palette", some "Num Entries", true⟩
  let first : FieldType :=
    { base := "ByteColor4", length := some "16", condition := some "Num Entries #EQ# 16" }
  obtain ⟨⟨other, others⟩, hplain, hothers⟩ := map_eq_ok_iff.mp
    (by decide +kernel : (NiObject.ofElement
      (Profile.default.withoutOverride "NiPalette" "palette") paletteEntry).map Prod.snd = .ok [
        .fieldConflict "NiPalette" "palette" "Option<[ByteColor4; 16]>" "Option<[ByteColor4; 256]>",
        .fieldConflict "NiPalette" "lookup" "Option<[u32; 4]>" "Option<[f32; 4]>"])
  have hrule : Profile.default.fieldOverride? rule.owner rule.field = some rule := by
    decide +kernel
  have halike := (ofElement_override hrule rfl paletteEntry).2.2.1 (by decide +kernel)
  rw [hplain] at halike
  generalize hread : NiObject.ofElement .default paletteEntry = read at halike ⊢
  cases halike with
  | @ok corrected _ h =>
    obtain ⟨-, heffect⟩ := h
    obtain ⟨type, htype, hpalette⟩ := heffect.get?_field
      (rfl : Profile.default.emittedMembers paletteEntry = .ok paletteEntry.children) rfl
    refine ⟨corrected.1, corrected.2, other, others, rfl, hplain, hothers, ?_, heffect.keys_eq,
      heffect.get?_other "lookup" (by decide), ?_⟩
    · rw [heffect.findings_eq, hothers]
      decide
    · rw [hpalette]
      cases htype.symm.trans (by decide +kernel : _ = .ok first)
      rfl

end NifBindings
