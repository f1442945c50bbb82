import NifBindings.Bindings
import NifBindings.Proofs.Expr.Rejection
import NifBindings.Proofs.Field.Presence
import NifBindings.Proofs.Model.Reading

/-!
# Failing bindings

The sources of a model can fail only on the texts that its fields write as expressions. The versions
of a field were read before, when its member was chosen, and no later declaration changes them.
-/

namespace NifBindings

/-- Whether a field writes a text as an expression: as its condition, or as the number of its
elements, unless that is a number already. -/
inductive FieldType.Writes (type : FieldType) : String → Prop
  | condition {text : String} (hcondition : type.condition = some text) : type.Writes text
  | count {text : String} (hlength : type.length = some text)
      (hnumeric : Text.isNumeric text = false) : type.Writes text

/-- A reader of a value that may be missing fails exactly if the value is there and cannot be
read. -/
theorem readOptional_eq_error_iff {β γ : Type} {read : β → Except InputError γ} {value? : Option β}
    {error : InputError} :
    readOptional read value? = .error error ↔
      ∃ value, value? = some value ∧ read value = .error error := by
  cases value? with
  | none => simp [readOptional]
  | some value =>
    unfold readOptional
    cases hvalue : read value <;> simp [hvalue, Except.map]

namespace FieldType

/-- The count of a field fails exactly if it has to be an expression and is none. -/
theorem countExpr_eq_error_iff {type : FieldType} {error : InputError} :
    type.countExpr = .error error ↔
      ∃ text, type.length = some text ∧ Text.isNumeric text = false ∧
        Expr.parse text = .error error := by
  unfold countExpr extent
  cases hlength : type.length with
  | none => simp
  | some length =>
    by_cases hnumeric : Text.isNumeric length = true
    · simp [hnumeric]
    · rw [Bool.not_eq_true] at hnumeric
      cases hparse : Expr.parse length <;> simp [hnumeric, hparse, Except.map]

variable {profile : Profile} {model : Model} {name : String} {type : FieldType}

/-- A declaration of a field with readable versions fails on a text that the field writes. -/
theorem exists_of_declaration_eq_error {error : InputError}
    (hrange : ∃ range, type.versionRange = .ok range)
    (h : type.declaration profile model name = .error error) :
    ∃ text, type.Writes text ∧ Expr.parse text = .error error := by
  obtain ⟨range, hrange⟩ := hrange
  rcases bind_eq_error_iff.mp h with hguard | ⟨guard, -, h⟩
  · rcases bind_eq_error_iff.mp hguard with hcondition | ⟨condition, -, hguard⟩
    · obtain ⟨text, htext, hparse⟩ := readOptional_eq_error_iff.mp hcondition
      exact ⟨text, .condition htext, hparse⟩
    · rw [hrange] at hguard
      cases hguard
  · rcases bind_eq_error_iff.mp h with hcount | ⟨count, -, h⟩
    · obtain ⟨text, htext, hnumeric, hparse⟩ := countExpr_eq_error_iff.mp hcount
      exact ⟨text, .count htext hnumeric, hparse⟩
    · cases h

/-- A field that is declared writes expressions only. -/
theorem exists_parse_of_declaration {declaration : FieldDeclaration}
    (h : type.declaration profile model name = .ok declaration) {text : String}
    (hwrites : type.Writes text) : ∃ expr, Expr.parse text = .ok expr := by
  obtain ⟨guard, hguard, h⟩ := bind_eq_ok_iff.mp h
  obtain ⟨count, hcount, -⟩ := bind_eq_ok_iff.mp h
  obtain ⟨condition, hcondition, -⟩ := bind_eq_ok_iff.mp hguard
  cases hparse : Expr.parse text with
  | ok expr => exact ⟨expr, rfl⟩
  | error error =>
    cases hwrites with
    | condition htext =>
      have herror := readOptional_eq_error_iff.mpr ⟨text, htext, hparse⟩
      rw [conditionExpr, herror] at hcondition
      cases hcondition
    | count htext hnumeric =>
      rw [countExpr_eq_error_iff.mpr ⟨text, htext, hnumeric, hparse⟩] at hcount
      cases hcount

end FieldType

namespace FieldMap

variable {profile : Profile} {model : Model} {fields : FieldMap}

/-- The declarations of fields with readable versions fail on a text that one of them writes. -/
theorem exists_of_declarations_eq_error {error : InputError}
    (hrange : ∀ type ∈ fields.values, ∃ range, type.versionRange = .ok range)
    (h : fields.declarations profile model = .error error) :
    ∃ type ∈ fields.values, ∃ text, type.Writes text ∧ Expr.parse text = .error error := by
  obtain ⟨⟨name, type⟩, hmem, herror⟩ := exists_error_of_mapM h
  have htype : type ∈ fields.values := List.mem_map.mpr ⟨(name, type), hmem, rfl⟩
  exact ⟨type, htype, FieldType.exists_of_declaration_eq_error (hrange type htype) herror⟩

/-- Fields that are declared write expressions only. -/
theorem exists_parse_of_declarations {declarations : List FieldDeclaration}
    (h : fields.declarations profile model = .ok declarations) {type : FieldType}
    (htype : type ∈ fields.values) {text : String} (hwrites : type.Writes text) :
    ∃ expr, Expr.parse text = .ok expr := by
  obtain ⟨⟨name, type⟩, hmem, rfl⟩ := List.mem_map.mp htype
  obtain ⟨declaration, hdeclaration⟩ := exists_ok_of_mapM h hmem
  exact FieldType.exists_parse_of_declaration hdeclaration hwrites

/-- A field that is kept has the versions of one of its declarations. -/
theorem exists_of_mem_ofDeclarations {declarations : List (String × FieldType)} {type : FieldType}
    (h : type ∈ (ofDeclarations declarations).values) :
    ∃ declaration ∈ declarations, type.since = declaration.2.since ∧
      type.last = declaration.2.last := by
  obtain ⟨⟨name, type⟩, hmem, rfl⟩ := List.mem_map.mp h
  have hget := OrderedMap.get?_eq_some_iff.mpr hmem
  rw [get?_ofDeclarations] at hget
  cases hdeclared : declaredUnder name declarations with
  | nil => simp [hdeclared, collapsed?] at hget
  | cons first later =>
    rw [hdeclared, collapsed?, Option.some.injEq] at hget
    have hfirst : first ∈ declaredUnder name declarations := by simp [hdeclared]
    obtain ⟨declaration, hdeclaration, rfl⟩ := List.mem_map.mp hfirst
    subst hget
    exact ⟨declaration, (List.mem_filter.mp hdeclaration).1, rfl, rfl⟩

/-- The versions of the fields of an entry can be read. -/
theorem exists_versionRange_of_readFields {owner : String} {entry : Element}
    {findings : List Diagnostic} (h : readFields profile owner entry = .ok (fields, findings)) :
    ∀ type ∈ fields.values, ∃ range, type.versionRange = .ok range := by
  intro type htype
  obtain ⟨members, hmembers, h⟩ := bind_eq_ok_iff.mp h
  obtain ⟨declarations, hdeclarations, h⟩ := bind_eq_ok_iff.mp h
  have hfields : fields = ofDeclarations declarations := by
    rw [← declareAll_fst owner, Except.ok.inj h]
  rw [hfields] at htype
  obtain ⟨declaration, hdeclaration, hsince, hlast⟩ := exists_of_mem_ofDeclarations htype
  have hdeclared : declaredFields profile owner entry = .ok declarations :=
    bind_eq_ok_iff.mpr ⟨members, hmembers, hdeclarations⟩
  obtain ⟨range, hrange⟩ := exists_versionRange_of_declaredFields hdeclared hdeclaration
  refine ⟨range, ?_⟩
  rwa [FieldType.versionRange, hsince, hlast]

end FieldMap

namespace Model

/-- Whether a field is stored in a model, in a compound or in an object. -/
inductive Stores (model : Model) (type : FieldType) : Prop
  | compound {compound : Compound} (hcompound : compound ∈ model.compounds.values)
      (htype : type ∈ compound.fields.values)
  | object {object : NiObject} (hobject : object ∈ model.objects.values)
      (htype : type ∈ object.fields.values)

/-- Whether a stored field is declared in the sources for a profile, which is so unless its compound
is written by hand. -/
inductive Generates (profile : Profile) (model : Model) (type : FieldType) : Prop
  | compound {compound : Compound} (hcompound : compound ∈ model.compounds.values)
      (hmanual : profile.isManual compound.name = false) (htype : type ∈ compound.fields.values)
  | object {object : NiObject} (hobject : object ∈ model.objects.values)
      (htype : type ∈ object.fields.values)

/-- The versions of every stored field can be read. -/
theorem exists_versionRange_of_stores {profile : Profile} {document : Document} {model : Model}
    (h : ofDocument profile document = .ok model) {type : FieldType} (htype : model.Stores type) :
    ∃ range, type.versionRange = .ok range := by
  cases htype with
  | compound hcompound htype =>
    obtain ⟨entry, findings, hread⟩ := exists_ofElement_of_mem_compounds h hcompound
    exact FieldMap.exists_versionRange_of_readFields (Compound.exists_of_ofElement hread).2 _ htype
  | object hobject htype =>
    obtain ⟨entry, findings, -, hread⟩ := exists_ofElement_of_mem_objects h hobject
    exact FieldMap.exists_versionRange_of_readFields (NiObject.exists_of_ofElement hread).2.2 _
      htype

end Model

section Sources

variable {profile : Profile} {model : Model}

/-- The source of compounds with readable versions fails on a text that a declared field writes. -/
theorem Compound.exists_of_source_eq_error {error : InputError}
    (hrange : ∀ type, model.Stores type → ∃ range, type.versionRange = .ok range)
    (h : Compound.source profile model = .error error) :
    ∃ type, model.Generates profile type ∧
      ∃ text, type.Writes text ∧ Expr.parse text = .error error := by
  rcases bind_eq_error_iff.mp h with hdeclarations | ⟨declarations, -, h⟩
  · obtain ⟨compound, hmem, herror⟩ := exists_error_of_mapM hdeclarations
    rw [List.mem_filter, Bool.not_eq_true'] at hmem
    rcases bind_eq_error_iff.mp herror with hfields | ⟨fields, -, herror⟩
    · obtain ⟨type, htype, hwrites⟩ := FieldMap.exists_of_declarations_eq_error
        (fun type htype => hrange type (.compound hmem.1 htype)) hfields
      exact ⟨type, .compound hmem.1 hmem.2 htype, hwrites⟩
    · cases herror
  · cases h

/-- The source of objects with readable versions fails on a text that a field writes. -/
theorem NiObject.exists_of_source_eq_error {error : InputError}
    (hrange : ∀ type, model.Stores type → ∃ range, type.versionRange = .ok range)
    (h : NiObject.source profile model = .error error) :
    ∃ type, model.Generates profile type ∧
      ∃ text, type.Writes text ∧ Expr.parse text = .error error := by
  rcases bind_eq_error_iff.mp h with hdeclarations | ⟨declarations, -, h⟩
  · obtain ⟨object, hmem, herror⟩ := exists_error_of_mapM hdeclarations
    rcases bind_eq_error_iff.mp herror with hfields | ⟨fields, -, herror⟩
    · obtain ⟨type, htype, hwrites⟩ := FieldMap.exists_of_declarations_eq_error
        (fun type htype => hrange type (.object hmem htype)) hfields
      exact ⟨type, .object hmem htype, hwrites⟩
    · cases herror
  · cases h

/-- In a source of compounds the fields write expressions only. -/
theorem Compound.exists_parse_of_source {lines : List String}
    (h : Compound.source profile model = .ok lines) {compound : Compound}
    (hcompound : compound ∈ model.compounds.values)
    (hmanual : profile.isManual compound.name = false) {type : FieldType}
    (htype : type ∈ compound.fields.values) {text : String} (hwrites : type.Writes text) :
    ∃ expr, Expr.parse text = .ok expr := by
  obtain ⟨declarations, hdeclarations, -⟩ := bind_eq_ok_iff.mp h
  obtain ⟨declaration, hdeclaration⟩ := exists_ok_of_mapM hdeclarations
    (List.mem_filter.mpr ⟨hcompound, by rw [hmanual]; rfl⟩)
  obtain ⟨fields, hfields, -⟩ := bind_eq_ok_iff.mp hdeclaration
  exact FieldMap.exists_parse_of_declarations hfields htype hwrites

/-- In a source of objects the fields write expressions only. -/
theorem NiObject.exists_parse_of_source {lines : List String}
    (h : NiObject.source profile model = .ok lines) {object : NiObject}
    (hobject : object ∈ model.objects.values) {type : FieldType}
    (htype : type ∈ object.fields.values) {text : String} (hwrites : type.Writes text) :
    ∃ expr, Expr.parse text = .ok expr := by
  obtain ⟨declarations, hdeclarations, -⟩ := bind_eq_ok_iff.mp h
  obtain ⟨declaration, hdeclaration⟩ := exists_ok_of_mapM hdeclarations hobject
  obtain ⟨fields, hfields, -⟩ := bind_eq_ok_iff.mp hdeclaration
  exact FieldMap.exists_parse_of_declarations hfields htype hwrites

end Sources

namespace Bindings

variable {profile : Profile} {model : Model}

/-- Bindings of a model with readable versions fail on a text that a declared field writes. -/
theorem exists_of_ofModel_eq_error {error : InputError}
    (hrange : ∀ type, model.Stores type → ∃ range, type.versionRange = .ok range)
    (h : ofModel profile model = .error error) :
    ∃ type, model.Generates profile type ∧
      ∃ text, type.Writes text ∧ Expr.parse text = .error error := by
  rcases bind_eq_error_iff.mp h with hcompounds | ⟨compounds, -, h⟩
  · exact Compound.exists_of_source_eq_error hrange hcompounds
  · rcases bind_eq_error_iff.mp h with hobjects | ⟨objects, -, h⟩
    · exact NiObject.exists_of_source_eq_error hrange hobjects
    · cases h

/-- In a model with bindings the declared fields write expressions only. -/
theorem exists_parse_of_ofModel {bindings : Bindings} (h : ofModel profile model = .ok bindings)
    {type : FieldType} (htype : model.Generates profile type) {text : String}
    (hwrites : type.Writes text) : ∃ expr, Expr.parse text = .ok expr := by
  obtain ⟨compounds, hcompounds, h⟩ := bind_eq_ok_iff.mp h
  obtain ⟨objects, hobjects, -⟩ := bind_eq_ok_iff.mp h
  cases htype with
  | compound hcompound hmanual htype =>
    exact Compound.exists_parse_of_source hcompounds hcompound hmanual htype hwrites
  | object hobject htype => exact NiObject.exists_parse_of_source hobjects hobject htype hwrites

/-- Bindings fail exactly on the texts that declared fields write as expressions. The bindings of a
model that was built for any profile fail for a profile exactly if one of the fields that are
declared for it has a condition, or a count that is no number, which cannot be read; the error is
then that of such a text, which is about an expression. The versions of all stored fields can be
read, so that no error about a version is left. -/
theorem ofModel_fails_iff {building : Profile} {document : Document} {model : Model}
    (hmodel : Model.ofDocument building document = .ok model) :
    (∀ type, model.Stores type → ∃ range, type.versionRange = .ok range) ∧
      ∀ generating : Profile,
        ((∃ error, ofModel generating model = .error error) ↔
          ∃ type, model.Generates generating type ∧
            ∃ text, type.Writes text ∧ ∃ error, Expr.parse text = .error error) ∧
        ∀ error, (ofModel generating model).mapError BindingsError.input = .error error →
          ∃ type text inner, model.Generates generating type ∧ type.Writes text ∧
            Expr.parse text = .error (.expression inner) ∧ error = .input (.expression inner) := by
  have hrange (type : FieldType) (htype : model.Stores type) :=
    Model.exists_versionRange_of_stores hmodel htype
  refine ⟨hrange, fun generating => ⟨⟨?_, ?_⟩, ?_⟩⟩
  · rintro ⟨error, herror⟩
    obtain ⟨type, htype, text, hwrites, hparse⟩ := exists_of_ofModel_eq_error hrange herror
    exact ⟨type, htype, text, hwrites, error, hparse⟩
  · rintro ⟨type, htype, text, hwrites, error, hparse⟩
    cases hbindings : ofModel generating model with
    | error other => exact ⟨other, rfl⟩
    | ok bindings =>
      obtain ⟨expr, hexpr⟩ := exists_parse_of_ofModel hbindings htype hwrites
      rw [hparse] at hexpr
      cases hexpr
  · intro error herror
    cases hbindings : ofModel generating model with
    | ok bindings =>
      rw [hbindings] at herror
      cases herror
    | error input =>
      rw [hbindings] at herror
      cases herror
      obtain ⟨type, htype, text, hwrites, hparse⟩ := exists_of_ofModel_eq_error hrange hbindings
      obtain ⟨inner, -, rfl⟩ := Expr.parseChars_eq_error_iff.mp hparse
      exact ⟨type, text, String.ofList inner, htype, hwrites, hparse, rfl⟩

/-- A document with one compound, whose field has a condition that is no expression. -/
def unclosedDocument : Document :=
  ⟨none, [compoundElement [fieldElement [("cond", "(Is Sphere")]]]⟩

/-- The bindings of a compound with a condition that is no expression fail for the default profile,
and are made for a profile under which that compound is written by hand. -/
theorem ofModel_fails_iff_unclosedDocument :
    ∃ model, Model.ofDocument .default unclosedDocument = .ok model ∧
      (∃ error, ofModel .default model = .error error) ∧
      ∃ bindings, ofModel { Profile.default with manualCompounds := ["Bounds"] } model =
        .ok bindings := by
  let radius : FieldType := { base := "f32", condition := some "(Is Sphere" }
  have hview : (Model.ofDocument .default unclosedDocument).toOption.map (fun model =>
      (model.compounds.values.map fun compound => (compound.name, compound.fields.values),
        model.objects.values.length)) = some ([("Bounds", [radius])], 0) := by
    decide +kernel
  have hparse : Expr.parse "(Is Sphere" = .error (.expression "(Is Sphere") := by
    have hshape : matchShape? "(Is Sphere".toList = none := by decide +kernel
    have hcompound : isCompound "(Is Sphere".toList = true := by decide +kernel
    rw [Expr.parse, Expr.parseChars, if_pos hcompound]
    split
    · rfl
    next found hfound =>
      rw [hshape] at hfound
      cases hfound
  cases hmodel : Model.ofDocument .default unclosedDocument with
  | error error =>
    rw [hmodel] at hview
    cases hview
  | ok model =>
    simp only [hmodel, Except.toOption, Option.map_some, Option.some.injEq, Prod.mk.injEq] at hview
    obtain ⟨hcompounds, hobjects⟩ := hview
    obtain ⟨compound, hvalues, hcompound⟩ := List.map_eq_singleton_iff.mp hcompounds
    obtain ⟨hname, hfields⟩ := Prod.mk.inj hcompound
    have hnone : model.objects.values = [] := List.length_eq_zero_iff.mp hobjects
    have hfails := (ofModel_fails_iff hmodel).2
    refine ⟨model, rfl, ?_, ?_⟩
    · refine (hfails .default).1.mpr ⟨radius, ?_, "(Is Sphere", .condition rfl, _, hparse⟩
      refine .compound (hvalues ▸ List.mem_singleton_self compound) ?_ (by simp [hfields])
      rw [hname]
      decide
    · cases hbindings : ofModel { Profile.default with manualCompounds := ["Bounds"] } model with
      | ok bindings => exact ⟨bindings, rfl⟩
      | error error =>
        obtain ⟨type, htype, -⟩ := (hfails _).1.mp ⟨error, hbindings⟩
        cases htype with
        | compound hmem hmanual =>
          rw [hvalues, List.mem_singleton] at hmem
          rw [hmem, hname] at hmanual
          cases hmanual
        | object hmem =>
          rw [hnone] at hmem
          cases hmem

end Bindings

end NifBindings
