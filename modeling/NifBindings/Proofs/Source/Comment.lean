import NifBindings.Bindings
import NifBindings.Proofs.Model.Documentation

/-!
# Documentation and code

What is left of a source without its comments is its code. The documentation of an entry is split
into lines, each of which is a comment of its own. But the version of the schema and the defaults of
bit fields are put into comments as they are, so that what stands in them behind a line feed is
outside the comment.
-/

namespace NifBindings

/-- Whether a line is a comment, behind its indentation. -/
def isCommentLine (line : List Char) : Bool :=
  ['/', '/'].isPrefixOf (line.dropWhile Text.isBlank)

/-- The lines of a text that are no comments. -/
def codeLines (text : String) : List (List Char) :=
  (text.toList.splitOn '\n').filter (!isCommentLine ·)

/-- The code in some lines of a source, each of which may go on behind a line feed. -/
def codeOf (lines : List String) : List (List Char) :=
  lines.flatMap codeLines

section Lines

/-- The code in lines is that in each of them. -/
theorem codeOf_append (lines others : List String) :
    codeOf (lines ++ others) = codeOf lines ++ codeOf others :=
  List.flatMap_append

/-- The code in a text that ends in a line and another one is the code in both. -/
theorem codeLines_append (line rest : String) :
    codeLines (line ++ "\n" ++ rest) = codeLines line ++ codeLines rest := by
  have hfeed : "\n".toList = ['\n'] := rfl
  unfold codeLines
  rw [String.toList_append, String.toList_append, hfeed, List.append_assoc, List.singleton_append,
    List.splitOn_append_cons_self, List.filter_append]

/-- The code in a source is that in its lines, and the nothing behind the last one. -/
theorem codeLines_joinLines (lines : List String) :
    codeLines (joinLines lines) = codeOf lines ++ [[]] := by
  induction lines with
  | nil => rfl
  | cons line lines ih =>
    have hjoin : joinLines (line :: lines) = line ++ "\n" ++ joinLines lines := by
      unfold joinLines
      simp [String.join_cons]
    have hcode : codeOf (line :: lines) = codeLines line ++ codeOf lines := List.flatMap_cons
    rw [hjoin, codeLines_append, ih, hcode, List.append_assoc]

/-- What begins like a comment is a comment. -/
theorem isCommentLine_append {front : List Char} (h : isCommentLine front = true)
    (back : List Char) : isCommentLine (front ++ back) = true := by
  unfold isCommentLine at h ⊢
  rw [List.isPrefixOf_iff_prefix] at h ⊢
  have hfront : (front.dropWhile Text.isBlank).isEmpty = false := by
    rw [List.isEmpty_eq_false_iff]
    intro hempty
    rw [hempty] at h
    exact absurd h.length_le (by simp)
  rw [List.dropWhile_append, hfront, if_neg (by simp)]
  exact h.trans (List.prefix_append _ back)

/-- A comment with a text in it that stands in one line holds no code. -/
theorem codeLines_comment {front text : String} (hcomment : isCommentLine front.toList = true)
    (hfront : '\n' ∉ front.toList) (htext : '\n' ∉ text.toList) :
    codeLines (front ++ text) = [] := by
  have hfeed : '\n' ∉ (front ++ text).toList := by
    rw [String.toList_append, List.mem_append, not_or]
    exact ⟨hfront, htext⟩
  have hwhole : isCommentLine (front ++ text).toList = true := by
    rw [String.toList_append]
    exact isCommentLine_append hcomment text.toList
  unfold codeLines
  rw [List.splitOn_eq_singleton hfeed, List.filter_cons_of_neg (by rw [hwhole]; decide),
    List.filter_nil]

/-- Documentation in lines is no code. -/
theorem codeOf_docComment {indent : String}
    (hcomment : isCommentLine (indent ++ "///").toList = true) (hindent : '\n' ∉ indent.toList)
    {doc : List String} (hdoc : InLines doc) : codeOf (docComment indent doc) = [] := by
  rw [codeOf, List.flatMap_eq_nil_iff]
  intro line hline
  obtain ⟨text, htext, rfl⟩ := List.mem_map.mp hline
  have hslashes : '\n' ∉ (indent ++ "///").toList := by
    rw [String.toList_append, List.mem_append, not_or]
    exact ⟨hindent, by decide⟩
  unfold docLine
  split
  · have hempty : indent ++ "///" = indent ++ "///" ++ "" := String.append_empty.symm
    rw [hempty]
    exact codeLines_comment hcomment hslashes (by decide)
  · have hspace : indent ++ "/// " ++ text = indent ++ "///" ++ (" " ++ text) := by
      have hsame : "/// " = "///" ++ " " := by decide
      rw [hsame]
      simp only [String.append_assoc]
    have htext' : '\n' ∉ (" " ++ text).toList := by
      rw [String.toList_append, List.mem_append, not_or]
      exact ⟨by decide, hdoc text htext⟩
    rw [hspace]
    exact codeLines_comment hcomment hslashes htext'

/-- Documentation that is not indented is no code. -/
theorem codeOf_docComment_empty {doc : List String} (hdoc : InLines doc) :
    codeOf (docComment "" doc) = [] :=
  codeOf_docComment (by decide) (by decide) hdoc

/-- If a change to some values leaves the code of each of them as it is, it leaves that of all of
them. -/
theorem codeOf_flatMap_map {α : Type} (lines : α → List String) (change : α → α) {values : List α}
    (h : ∀ value ∈ values, codeOf (lines value) = codeOf (lines (change value))) :
    codeOf (values.flatMap lines) = codeOf ((values.map change).flatMap lines) := by
  unfold codeOf at *
  rw [List.flatMap_assoc, List.flatMap_map, List.flatMap_assoc]
  exact List.flatMap_congr h

end Lines

section Sources

/-- The documentation of bit flags is no code. -/
theorem BitFlags.codeOf_lines {flags : BitFlags} (h : InLines flags.doc) :
    codeOf flags.lines = codeOf flags.bare.lines := by
  have hdoc {doc : List String} (hdoc : InLines doc) : codeOf (docComment "    " doc) = [] :=
    codeOf_docComment (by decide) (by decide) hdoc
  have hbare : InLines flags.bare.doc := nofun
  unfold lines
  simp only [codeOf_append, hdoc h, hdoc hbare]
  rfl

/-- The documentation of an enumeration is no code. -/
theorem Enumeration.codeOf_lines {enumeration : Enumeration} (h : InLines enumeration.doc) :
    codeOf enumeration.lines = codeOf enumeration.bare.lines := by
  have hbare : InLines enumeration.bare.doc := nofun
  unfold lines
  simp only [codeOf_append, codeOf_docComment_empty h, codeOf_docComment_empty hbare]
  rfl

/-- The declaration of a compound without documentation. -/
def CompoundDeclaration.bare (compound : CompoundDeclaration) : CompoundDeclaration :=
  { compound with doc := [] }

/-- The documentation of a compound is no code. -/
theorem CompoundDeclaration.codeOf_lines {compound : CompoundDeclaration}
    (h : InLines compound.doc) : codeOf compound.lines = codeOf compound.bare.lines := by
  have hbare : InLines compound.bare.doc := nofun
  unfold lines
  simp only [codeOf_append, codeOf_docComment_empty h, codeOf_docComment_empty hbare]
  rfl

/-- The declaration of an object without documentation. -/
def ObjectDeclaration.bare (object : ObjectDeclaration) : ObjectDeclaration :=
  { object with doc := [] }

/-- The documentation of an object is no code. -/
theorem ObjectDeclaration.codeOf_lines {object : ObjectDeclaration} (h : InLines object.doc) :
    codeOf object.lines = codeOf object.bare.lines := by
  have hbare : InLines object.bare.doc := nofun
  unfold lines
  simp only [codeOf_append, codeOf_docComment_empty h, codeOf_docComment_empty hbare]
  rfl

/-- The documentation of all bit flags is no code. -/
theorem BitFlags.codeOf_source {all : List BitFlags} (h : ∀ flags ∈ all, InLines flags.doc) :
    codeOf (source all) = codeOf (source (all.map bare)) := by
  unfold source
  rw [codeOf_append, codeOf_append,
    codeOf_flatMap_map lines bare fun flags hmem => codeOf_lines (h flags hmem)]

/-- The documentation of all enumerations is no code. -/
theorem Enumeration.codeOf_source {all : List Enumeration}
    (h : ∀ enumeration ∈ all, InLines enumeration.doc) :
    codeOf (source all) = codeOf (source (all.map bare)) := by
  unfold source
  rw [codeOf_append, codeOf_append,
    codeOf_flatMap_map lines bare fun enumeration hmem => codeOf_lines (h enumeration hmem)]

/-- Whether a reader takes an argument does not depend on documentation. -/
theorem takesArgument_bare (profile : Profile) (model : Model) (name : String) :
    takesArgument profile model.bare name = takesArgument profile model name := by
  unfold takesArgument
  rw [Model.get?_compounds_bare, Option.any_map]
  rfl

/-- The declaration of a field does not depend on documentation. -/
theorem FieldMap.declarations_bare (profile : Profile) (model : Model) (fields : FieldMap) :
    fields.declarations profile model.bare = fields.declarations profile model := by
  have hcontains (name : String) :
      model.bare.compounds.contains name = model.compounds.contains name := by
    unfold OrderedMap.contains
    rw [Model.get?_compounds_bare, Option.isSome_map]
  unfold declarations FieldType.declaration FieldType.readerArguments
  simp only [hcontains, takesArgument_bare]

/-- Compounds without documentation are declared without it. -/
theorem Compound.declarations_bare (profile : Profile) (model : Model) :
    declarations profile model.bare =
      (declarations profile model).map (List.map CompoundDeclaration.bare) := by
  have hdeclaration (compound : Compound) : declaration profile model.bare compound.bare =
      (declaration profile model compound).map CompoundDeclaration.bare := by
    unfold declaration
    simp only [FieldMap.declarations_bare, takesArgument_bare, map_bind_eq]
    rfl
  unfold declarations
  rw [Model.values_compounds_bare, List.filter_map, List.mapM_map]
  exact mapM_eq_map _ hdeclaration

/-- Objects without documentation are declared without it. -/
theorem NiObject.declarations_bare (profile : Profile) (model : Model) :
    declarations profile model.bare =
      (declarations profile model).map (List.map ObjectDeclaration.bare) := by
  have hdeclaration (object : NiObject) : declaration profile model.bare object.bare =
      (declaration profile model object).map ObjectDeclaration.bare := by
    unfold declaration
    simp only [FieldMap.declarations_bare, map_bind_eq]
    rfl
  unfold declarations
  rw [Model.values_objects_bare, List.mapM_map]
  exact mapM_eq_map _ hdeclaration

/-- Blocks have no documentation. -/
theorem Dispatcher.ofModel_bare (profile : Profile) (model : Model) :
    ofModel profile model.bare = ofModel profile model := by
  unfold ofModel Model.concreteObjects
  rw [Model.values_objects_bare, List.filter_map, List.map_map]
  rfl

/-- The documentation of all compounds is no code. -/
theorem Compound.codeOf_source {profile : Profile} {model : Model} (h : model.IsInLines) :
    (source profile model).map codeOf = (source profile model.bare).map codeOf := by
  unfold source
  rw [declarations_bare, bind_map_eq, map_bind_eq, map_bind_eq]
  refine bind_congr_of_ok fun compounds hdeclarations => congrArg Except.ok ?_
  have hdoc (compound : CompoundDeclaration) (hmem : compound ∈ compounds) :
      InLines compound.doc := by
    obtain ⟨described, hdescribed, hdeclaration⟩ := exists_of_mem_mapM hdeclarations hmem
    obtain ⟨fields, -, hdeclaration⟩ := bind_eq_ok_iff.mp hdeclaration
    cases hdeclaration
    exact h.compounds described (List.mem_filter.mp hdescribed).1
  have hcode := codeOf_flatMap_map CompoundDeclaration.lines CompoundDeclaration.bare
    fun compound hmem => CompoundDeclaration.codeOf_lines (hdoc compound hmem)
  rw [codeOf_append, hcode, ← codeOf_append]

/-- The documentation of all objects is no code. -/
theorem NiObject.codeOf_source {profile : Profile} {model : Model} (h : model.IsInLines) :
    (source profile model).map codeOf = (source profile model.bare).map codeOf := by
  unfold source
  rw [declarations_bare, Dispatcher.ofModel_bare, bind_map_eq, map_bind_eq, map_bind_eq]
  refine bind_congr_of_ok fun objects hdeclarations => congrArg Except.ok ?_
  have hdoc (object : ObjectDeclaration) (hmem : object ∈ objects) : InLines object.doc := by
    obtain ⟨described, hdescribed, hdeclaration⟩ := exists_of_mem_mapM hdeclarations hmem
    obtain ⟨fields, -, hdeclaration⟩ := bind_eq_ok_iff.mp hdeclaration
    cases hdeclaration
    exact h.objects described hdescribed
  have hcode := codeOf_flatMap_map ObjectDeclaration.lines ObjectDeclaration.bare
    fun object hmem => ObjectDeclaration.codeOf_lines (hdoc object hmem)
  rw [codeOf_append, hcode, ← codeOf_append]

end Sources

namespace Bindings

/-- The comment with the version. -/
def versionLine (version : Option String) : String :=
  "//! Automatically generated by nifgen from nif.xml version " ++ version.getD "unknown" ++ "."

/-- The code of each source, with the name of its file. -/
def code (bindings : Bindings) : List (String × List (List Char)) :=
  bindings.files.map fun file => (file.1, codeLines file.2)

end Bindings

/-- The code that the comment with a default holds. -/
def BitFieldMember.defaultCode (member : BitFieldMember) : List (List Char) :=
  codeOf (member.default?.map BitField.defaultLine).toList

namespace BitField

/-- The code that the comments of a bit field hold, for each value in it. -/
def defaultCodes (bitField : BitField) : List (List (List Char)) :=
  bitField.members.values.map BitFieldMember.defaultCode

/-- The lines in front of the accessors of a bit field. -/
def frontLines (bitField : BitField) : List String :=
  ["#[derive(Clone, Copy, Debug, Default, PartialEq, Eq, Hash, BinRead)]",
    "pub struct " ++ bitField.name ++ "(pub " ++ bitField.storage ++ ");",
    "",
    "impl " ++ bitField.name ++ " \x7b"]

/-- The code of a bit field without documentation, with some code in front of each accessor. -/
def codeWith (model : Model) (bitField : BitField) (codes : List (List (List Char))) :
    List (List Char) :=
  codeOf bitField.frontLines ++
    (codes.zip bitField.members.entries).flatMap (fun accessor =>
      accessor.1 ++ codeOf (accessorLines model bitField.storage accessor.2)) ++
    codeOf ["\x7d", ""]

/-- The accessor for a value is that for the value without its default, behind the comment. -/
theorem codeOf_accessorLines (model : Model) (storage : String) (entry : String × BitFieldMember) :
    codeOf (accessorLines model storage entry) =
      entry.2.defaultCode ++ codeOf (accessorLines model.bare storage (entry.1, entry.2.bare)) := by
  have haccessor : entry.2.bare.accessor model.bare storage = entry.2.accessor model storage := by
    have htype : entry.2.bare.type = entry.2.type := rfl
    unfold BitFieldMember.accessor
    rw [htype, Model.get?_enumerations_bare]
    cases model.enumerations.get? entry.2.type.base <;> rfl
  have hbody (accessor : Accessor) :
      accessorBody entry.1 entry.2.bare accessor = accessorBody entry.1 entry.2 accessor := by
    cases accessor <;> rfl
  have hdefault : (entry.2.bare.default?.map defaultLine).toList = [] := rfl
  unfold accessorLines BitFieldMember.defaultCode
  rw [haccessor, hbody, hdefault]
  simp only [codeOf_append, List.append_assoc, List.nil_append]

/-- The code of a bit field is that of the bit field without documentation, with the code in its
comments. -/
theorem codeOf_lines (model : Model) {bitField : BitField} (h : InLines bitField.doc) :
    codeOf (lines model bitField) = codeWith model.bare bitField.bare bitField.defaultCodes := by
  have haccessors : codeOf (bitField.members.entries.flatMap
      (accessorLines model bitField.storage)) =
        (bitField.defaultCodes.zip bitField.bare.members.entries).flatMap (fun accessor =>
          accessor.1 ++ codeOf (accessorLines model.bare bitField.storage accessor.2)) := by
    have hzip : bitField.defaultCodes.zip bitField.bare.members.entries =
        bitField.members.entries.map fun entry =>
          (entry.2.defaultCode, (entry.1, entry.2.bare)) := by
      unfold defaultCodes OrderedMap.values
      rw [List.map_map]
      exact List.zip_map' ..
    rw [hzip, List.flatMap_map, codeOf, List.flatMap_assoc]
    exact List.flatMap_congr fun entry _ => codeOf_accessorLines model bitField.storage entry
  unfold lines codeWith
  simp only [codeOf_append, codeOf_docComment_empty h, haccessors]
  rfl

/-- A bit field has as much more code than without documentation as its comments hold. -/
theorem length_codeOf_lines (model : Model) {bitField : BitField} (h : InLines bitField.doc) :
    (codeOf (lines model bitField)).length =
      (codeOf (lines model.bare bitField.bare)).length + bitField.defaultCodes.flatten.length := by
  have haccessors : (codeOf (bitField.members.entries.flatMap
      (accessorLines model bitField.storage))).length =
        (codeOf (bitField.bare.members.entries.flatMap
          (accessorLines model.bare bitField.storage))).length +
          bitField.defaultCodes.flatten.length := by
    have hentries : bitField.bare.members.entries =
        bitField.members.entries.map fun entry => (entry.1, entry.2.bare) := rfl
    have hcodes : bitField.defaultCodes.flatten =
        bitField.members.entries.flatMap fun entry => entry.2.defaultCode := by
      unfold defaultCodes OrderedMap.values
      rw [List.map_map, ← List.flatMap_def]
      rfl
    rw [hentries, hcodes, codeOf, codeOf, List.flatMap_map, List.flatMap_assoc, List.flatMap_assoc]
    refine length_flatMap_add fun entry _ => ?_
    have hsame := codeOf_accessorLines model bitField.storage entry
    unfold codeOf at hsame
    rw [hsame, List.length_append, Nat.add_comm]
  have hbare : bitField.bare.doc = [] ∧ bitField.bare.name = bitField.name ∧
      bitField.bare.storage = bitField.storage :=
    ⟨rfl, rfl, rfl⟩
  have hnone : codeOf (docComment "" []) = [] := rfl
  unfold lines
  simp only [codeOf_append, codeOf_docComment_empty h, hbare, hnone, List.length_append,
    haccessors]
  omega

end BitField

namespace Model

/-- The code that the comments with defaults hold, for each bit field. -/
def defaultCodes (model : Model) : List (List (List (List Char))) :=
  model.bitFields.values.map BitField.defaultCodes

/-- The code of all bit fields is that without documentation, with the code in the comments. -/
theorem codeOf_bitFields {model : Model} (h : model.IsInLines) :
    codeOf (BitField.source model) = codeOf BitField.preamble ++
      (model.defaultCodes.zip model.bare.bitFields.values).flatMap fun bitField =>
        BitField.codeWith model.bare bitField.2 bitField.1 := by
  have hzip : model.defaultCodes.zip model.bare.bitFields.values =
      model.bitFields.values.map fun bitField => (bitField.defaultCodes, bitField.bare) := by
    rw [values_bitFields_bare]
    exact List.zip_map' ..
  unfold BitField.source
  rw [codeOf_append, hzip, List.flatMap_map, codeOf, codeOf, List.flatMap_assoc]
  exact congrArg _ (List.flatMap_congr fun bitField hmem =>
    BitField.codeOf_lines model (h.bitFields bitField hmem))

/-- All bit fields have as much more code than without documentation as their comments hold. -/
theorem length_codeOf_bitFields {model : Model} (h : model.IsInLines) :
    (codeOf (BitField.source model)).length =
      (codeOf (BitField.source model.bare)).length +
        (model.defaultCodes.flatMap List.flatten).length := by
  unfold BitField.source
  rw [codeOf_append, codeOf_append, values_bitFields_bare, List.length_append, List.length_append,
    Nat.add_assoc, Nat.add_left_cancel_iff, codeOf, codeOf, List.flatMap_assoc, List.flatMap_map,
    List.flatMap_assoc, defaultCodes, List.flatMap_map]
  exact length_flatMap_add fun bitField hmem =>
    BitField.length_codeOf_lines model (h.bitFields bitField hmem)

/-- The code that the comment with the version holds. -/
def versionCode (model : Model) : List (List Char) :=
  codeLines (Bindings.versionLine model.version)

/-- Whether the comments with the version and with the defaults hold no code. -/
def IsCommented (model : Model) : Prop :=
  model.versionCode = [] ∧ ∀ codes ∈ model.defaultCodes, ∀ code ∈ codes, code = []

/-- The texts that are put into comments as they are. -/
def inlineTexts (model : Model) : List String :=
  model.version.toList ++
    model.bitFields.values.flatMap fun bitField =>
      bitField.members.values.filterMap BitFieldMember.default?

/-- Texts of one line leave no code in their comments. -/
theorem isCommented_of_not_mem {model : Model}
    (h : ∀ text ∈ model.inlineTexts, '\n' ∉ text.toList) : model.IsCommented := by
  constructor
  · have hversion : '\n' ∉ (model.version.getD "unknown" ++ ".").toList := by
      rw [String.toList_append, List.mem_append, not_or]
      refine ⟨?_, by decide⟩
      cases hversion : model.version with
      | none => decide
      | some version => exact h version (List.mem_append_left _ (by simp [hversion]))
    unfold versionCode Bindings.versionLine
    rw [String.append_assoc]
    exact codeLines_comment (by decide) (by decide) hversion
  · intro codes hcodes code hcode
    obtain ⟨bitField, hbitField, rfl⟩ := List.mem_map.mp hcodes
    obtain ⟨member, hmember, rfl⟩ := List.mem_map.mp hcode
    unfold BitFieldMember.defaultCode
    cases hdefault : member.default? with
    | none => rfl
    | some value =>
      have hvalue : '\n' ∉ (value ++ "`.").toList := by
        rw [String.toList_append, List.mem_append, not_or]
        refine ⟨h value (List.mem_append_right _ ?_), by decide⟩
        exact List.mem_flatMap.mpr ⟨bitField, hbitField,
          List.mem_filterMap.mpr ⟨member, hmember, hdefault⟩⟩
      have hline : codeLines (BitField.defaultLine value) = [] := by
        unfold BitField.defaultLine
        rw [String.append_assoc]
        exact codeLines_comment (by decide) (by decide) hvalue
      simp [codeOf, hline]

/-- If the comments with defaults hold no code, they do so for each value in each bit field. -/
theorem defaultCodes_of_eq_nil {model : Model}
    (h : ∀ codes ∈ model.defaultCodes, ∀ code ∈ codes, code = []) :
    model.defaultCodes = model.bare.bitFields.values.map fun bitField =>
      bitField.members.values.map fun _ => [] := by
  rw [values_bitFields_bare, List.map_map]
  refine List.map_congr_left fun bitField hbitField => ?_
  have hmembers : bitField.bare.members.values = bitField.members.values.map BitFieldMember.bare :=
    OrderedMap.values_mapValues BitFieldMember.bare bitField.members
  rw [Function.comp_apply, hmembers, List.map_map]
  refine List.map_congr_left fun member hmember => ?_
  exact h _ (List.mem_map_of_mem hbitField) _ (List.mem_map_of_mem hmember)

end Model

namespace Bindings

/-- The code of a source with the code that the comment with the version holds. -/
def sourceCode (version body : List (List Char)) : List (List Char) :=
  version ++ (codeOf (header none).tail ++ (body ++ [[]]))

/-- The code of all sources of a model without documentation, with the code that the comment with
the version holds and that of the bit fields, compounds and objects. -/
def codeWith (model : Model) (version bitFields compounds objects : List (List Char)) :
    List (String × List (List Char)) :=
  [("bitflags.rs", sourceCode version (codeOf (BitFlags.source model.bitFlags.values))),
    ("enums.rs", sourceCode version (codeOf (Enumeration.source model.enumerations.values))),
    ("bitfields.rs", sourceCode version bitFields),
    ("compounds.rs", sourceCode version compounds),
    ("objects.rs", sourceCode version objects)]

/-- The code of a source is that of its header and that of its body. -/
theorem codeLines_source (version : Option String) (body : List String) :
    codeLines (joinLines (header version ++ body)) =
      sourceCode (codeLines (versionLine version)) (codeOf body) := by
  have hheader : header version = [versionLine version] ++ (header none).tail := rfl
  have hversion : codeOf [versionLine version] = codeLines (versionLine version) :=
    List.flatMap_singleton ..
  unfold sourceCode
  rw [codeLines_joinLines, hheader, codeOf_append, codeOf_append, hversion, List.append_assoc,
    List.append_assoc]

/-- The code of some sources is that of their headers and of their bodies. -/
theorem code_mk (version : Option String)
    (bitFlags enumerations bitFields compounds objects : List String) :
    code {
        bitFlags := joinLines (header version ++ bitFlags)
        enumerations := joinLines (header version ++ enumerations)
        bitFields := joinLines (header version ++ bitFields)
        compounds := joinLines (header version ++ compounds)
        objects := joinLines (header version ++ objects) } =
      [("bitflags.rs", sourceCode (codeLines (versionLine version)) (codeOf bitFlags)),
        ("enums.rs", sourceCode (codeLines (versionLine version)) (codeOf enumerations)),
        ("bitfields.rs", sourceCode (codeLines (versionLine version)) (codeOf bitFields)),
        ("compounds.rs", sourceCode (codeLines (versionLine version)) (codeOf compounds)),
        ("objects.rs", sourceCode (codeLines (versionLine version)) (codeOf objects))] := by
  unfold code files
  simp only [List.map_cons, List.map_nil, codeLines_source]

/-- The code of the bindings of a model is that of its bindings without documentation, but for what
the comments with the version and with the defaults hold. -/
theorem map_code_ofModel {profile : Profile} {model : Model} (h : model.IsInLines) :
    (ofModel profile model).map code =
      (Compound.source profile model.bare).map codeOf >>= fun compounds =>
        (NiObject.source profile model.bare).map codeOf >>= fun objects =>
          .ok (codeWith model.bare model.versionCode (codeOf (BitField.source model)) compounds
            objects) := by
  have hcode (compounds objects : List String) :
      (Except.ok {
        bitFlags := joinLines (header model.version ++ BitFlags.source model.bitFlags.values)
        enumerations := joinLines (header model.version ++
          Enumeration.source model.enumerations.values)
        bitFields := joinLines (header model.version ++ BitField.source model)
        compounds := joinLines (header model.version ++ compounds)
        objects := joinLines (header model.version ++ objects) }).map code =
      (.ok (codeWith model.bare model.versionCode (codeOf (BitField.source model))
        (codeOf compounds) (codeOf objects)) : Except InputError _) := by
    unfold codeWith Model.versionCode
    rw [Except.map, code_mk, Model.values_bitFlags_bare, Model.values_enumerations_bare,
      BitFlags.codeOf_source h.bitFlags, Enumeration.codeOf_source h.enumerations]
  rw [← Compound.codeOf_source h, ← NiObject.codeOf_source h]
  unfold ofModel
  simp only [map_bind_eq, bind_map_eq, hcode]

/-- The code of a source determines what the comment with the version holds. -/
theorem sourceCode_inj_left {version version' body : List (List Char)}
    (h : sourceCode version body = sourceCode version' body) : version = version' :=
  List.append_cancel_right h

/-- The code of a source determines that of its body. -/
theorem sourceCode_inj_right {version body body' : List (List Char)}
    (h : sourceCode version body = sourceCode version body') : body = body' :=
  List.append_cancel_right (List.append_cancel_left (List.append_cancel_left h))

/-- The code of the bindings determines what the comments with the version hold, and the code of the
bit fields. -/
theorem codeWith_inj {model : Model}
    {version version' bitFields bitFields' compounds objects : List (List Char)}
    (h : codeWith model version bitFields compounds objects =
      codeWith model version' bitFields' compounds objects) :
    version = version' ∧ bitFields = bitFields' := by
  obtain ⟨hflags, h⟩ := List.cons.inj h
  obtain ⟨-, h⟩ := List.cons.inj h
  obtain ⟨hbitFields, -⟩ := List.cons.inj h
  have hversion := sourceCode_inj_left (Prod.mk.inj hflags).2
  subst hversion
  exact ⟨rfl, sourceCode_inj_right (Prod.mk.inj hbitFields).2⟩

end Bindings

namespace Model

variable {building generating : Profile} {a b : Document}

/-- The code of the bindings of two models that differ in documentation is the same exactly if the
comments with their versions hold the same, and the code of their bit fields is the same. -/
theorem exists_ofModel_of_bare_eq {profile : Profile} {modelA modelB : Model} {bindingsA : Bindings}
    (hsame : modelA.bare = modelB.bare) (ha : modelA.IsInLines) (hb : modelB.IsInLines)
    (hbindings : Bindings.ofModel profile modelA = .ok bindingsA) :
    ∃ bindingsB, Bindings.ofModel profile modelB = .ok bindingsB ∧
      (bindingsA.code = bindingsB.code ↔ modelA.versionCode = modelB.versionCode ∧
        codeOf (BitField.source modelA) = codeOf (BitField.source modelB)) := by
  have hcodeA := @Bindings.map_code_ofModel profile modelA ha
  have hcodeB := @Bindings.map_code_ofModel profile modelB hb
  rw [hbindings] at hcodeA
  -- The compounds and objects without documentation are the same, so those of the second model are
  -- generated as well.
  obtain ⟨compounds, hcompounds, hcodeA⟩ := bind_eq_ok_iff.mp hcodeA.symm
  obtain ⟨objects, hobjects, hcodeA⟩ := bind_eq_ok_iff.mp hcodeA
  rw [← hsame, hcompounds, hobjects] at hcodeB
  obtain ⟨bindingsB, hbindingsB, hcodeB⟩ := map_eq_ok_iff.mp hcodeB
  rw [Except.ok.injEq] at hcodeA
  refine ⟨bindingsB, hbindingsB, ?_⟩
  rw [← hcodeA, hcodeB]
  exact ⟨Bindings.codeWith_inj, fun ⟨hversion, hbitFields⟩ => by rw [hversion, hbitFields]⟩

/-- Bit fields whose comments hold the same code have the same code. -/
theorem codeOf_bitFields_eq {modelA modelB : Model} (hsame : modelA.bare = modelB.bare)
    (ha : modelA.IsInLines) (hb : modelB.IsInLines)
    (hcodes : modelA.defaultCodes = modelB.defaultCodes) :
    codeOf (BitField.source modelA) = codeOf (BitField.source modelB) := by
  rw [codeOf_bitFields ha, codeOf_bitFields hb, hsame, hcodes]

/-- Bit fields whose comments hold no code have the same code as others exactly if the comments of
these hold none either. -/
theorem codeOf_bitFields_eq_iff {modelA modelB : Model} (hsame : modelA.bare = modelB.bare)
    (ha : modelA.IsInLines) (hb : modelB.IsInLines)
    (hnone : ∀ codes ∈ modelB.defaultCodes, ∀ code ∈ codes, code = []) :
    codeOf (BitField.source modelA) = codeOf (BitField.source modelB) ↔
      ∀ codes ∈ modelA.defaultCodes, ∀ code ∈ codes, code = [] := by
  have hnil (model : Model) : model.defaultCodes.flatMap List.flatten = [] ↔
      ∀ codes ∈ model.defaultCodes, ∀ code ∈ codes, code = [] := by
    simp only [List.flatMap_eq_nil_iff, List.flatten_eq_nil_iff]
  constructor
  · intro hcode
    -- What the comments hold only makes the code longer, so equal lengths leave no room for it.
    have hlength := congrArg List.length hcode
    rw [length_codeOf_bitFields ha, length_codeOf_bitFields hb, hsame, (hnil modelB).mpr hnone,
      List.length_nil, Nat.add_zero, Nat.add_eq_left, List.length_eq_zero_iff] at hlength
    exact (hnil modelA).mp hlength
  · intro hnoneA
    refine codeOf_bitFields_eq hsame ha hb ?_
    rw [defaultCodes_of_eq_nil hnoneA, defaultCodes_of_eq_nil hnone, hsame]

/-- Documentation becomes code through line feeds in the version and in the defaults of bit fields,
and in no other way. Of two documents that are the same but for documentation, either both have
bindings or none. The code of the bindings is the same if the comments with the versions and with
the defaults hold the same code. If those of one document hold none, it is the same exactly if those
of the other hold none, which is the case where none of the texts in them has a line feed. -/
theorem code_eq_iff_isCommented {modelA : Model} {bindingsA : Bindings} (hsame : a.bare = b.bare)
    (hmodel : ofDocument building a = .ok modelA)
    (hbindings : Bindings.ofModel generating modelA = .ok bindingsA) :
    ∃ modelB bindingsB, ofDocument building b = .ok modelB ∧
      Bindings.ofModel generating modelB = .ok bindingsB ∧
      (modelA.versionCode = modelB.versionCode → modelA.defaultCodes = modelB.defaultCodes →
        bindingsA.code = bindingsB.code) ∧
      (modelB.IsCommented → (bindingsA.code = bindingsB.code ↔ modelA.IsCommented)) ∧
      ((∀ text ∈ modelA.inlineTexts ++ modelB.inlineTexts, '\n' ∉ text.toList) →
        bindingsA.code = bindingsB.code) := by
  obtain ⟨modelB, hmodelB, hbare⟩ := exists_ofDocument_of_bare_eq hsame hmodel
  have ha := isInLines_of_ofDocument hmodel
  have hb := isInLines_of_ofDocument hmodelB
  obtain ⟨bindingsB, hbindingsB, hcode⟩ := exists_ofModel_of_bare_eq hbare ha hb hbindings
  have hcommented (hnone : modelB.IsCommented) :
      bindingsA.code = bindingsB.code ↔ modelA.IsCommented := by
    rw [hcode, codeOf_bitFields_eq_iff hbare ha hb hnone.2, hnone.1]
    rfl
  refine ⟨modelB, bindingsB, hmodelB, hbindingsB, ?_, hcommented, ?_⟩
  · intro hversion hdefaults
    exact hcode.mpr ⟨hversion, codeOf_bitFields_eq hbare ha hb hdefaults⟩
  · intro hfeed
    obtain ⟨hfeedA, hfeedB⟩ := List.forall_mem_append.mp hfeed
    exact (hcommented (isCommented_of_not_mem hfeedB)).mpr (isCommented_of_not_mem hfeedA)

/-- A bit field with one value, its documentation and the version of its schema. -/
def documentedFlags (version text default : String) : Document :=
  ⟨some version, [{
    tag := "bitfield"
    attributes := .ofList [("name", "AlphaFlags"), ("storage", "ushort")]
    text := text
    children := [{
      tag := "member"
      attributes := .ofList [("name", "Test Func"), ("type", "byte"), ("pos", "10"),
        ("mask", "0x1C00"), ("default", default)]
      text := ""
      children := [] }] }]⟩

/-- Any two of these documents are the same but for documentation. -/
theorem bare_documentedFlags (version text default other another value : String) :
    (documentedFlags version text default).bare = (documentedFlags other another value).bare := by
  rfl

/-- The model and the bindings that the default profile makes of a document. -/
def generated? (document : Document) : Option (Model × Bindings) := do
  let model ← (ofDocument .default document).toOption
  let bindings ← (Bindings.ofModel .default model).toOption
  return (model, bindings)

/-- What is seen of what is generated is seen of a model and its bindings. -/
theorem exists_of_generated? {α : Type} {document : Document} {value : α} (view : Model → α)
    (h : (generated? document).map (fun generated => view generated.1) = some value) :
    ∃ model bindings, ofDocument .default document = .ok model ∧
      Bindings.ofModel .default model = .ok bindings ∧ view model = value := by
  obtain ⟨⟨model, bindings⟩, hgenerated, hview⟩ := Option.map_eq_some_iff.mp h
  obtain ⟨model, hmodel, hgenerated⟩ := Option.bind_eq_some_iff.mp hgenerated
  obtain ⟨bindings, hbindings, hgenerated⟩ := Option.bind_eq_some_iff.mp hgenerated
  cases hgenerated
  exact ⟨model, bindings, toOption_eq_some_iff.mp hmodel, toOption_eq_some_iff.mp hbindings, hview⟩

/-- Documentation in several lines, another version and another default leave the code as it is. -/
theorem code_eq_iff_isCommented_documentedFlags :
    ∃ modelA bindingsA modelB bindingsB,
      ofDocument .default (documentedFlags "0.9" "First.\nfn" "0") = .ok modelA ∧
      Bindings.ofModel .default modelA = .ok bindingsA ∧
      ofDocument .default (documentedFlags "1.0" "Second." "1") = .ok modelB ∧
      Bindings.ofModel .default modelB = .ok bindingsB ∧ bindingsA.code = bindingsB.code := by
  have htexts : (generated? (documentedFlags "0.9" "First.\nfn" "0")).map
      (fun generated => generated.1.inlineTexts) = some ["0.9", "0"] := by
    decide +kernel
  have hothers : (generated? (documentedFlags "1.0" "Second." "1")).map
      (fun generated => generated.1.inlineTexts) = some ["1.0", "1"] := by
    decide +kernel
  obtain ⟨modelA, bindingsA, hmodelA, hbindingsA, htexts⟩ := exists_of_generated? inlineTexts htexts
  obtain ⟨modelB, -, hother, -, hothers⟩ := exists_of_generated? inlineTexts hothers
  obtain ⟨other, bindingsB, hmodelB, hbindingsB, -, -, hcode⟩ :=
    code_eq_iff_isCommented (bare_documentedFlags _ _ _ "1.0" "Second." "1") hmodelA hbindingsA
  cases hother.symm.trans hmodelB
  refine ⟨modelA, bindingsA, modelB, bindingsB, hmodelA, hbindingsA, hmodelB, hbindingsB,
    hcode ?_⟩
  rw [htexts, hothers]
  decide

/-- What stands behind a line feed in the version is code, and so is what stands behind a line feed
in a default. -/
theorem code_ne_documentedFlags :
    ∃ model bindings versioned versionedBindings defaulted defaultedBindings,
      ofDocument .default (documentedFlags "1" "" "0") = .ok model ∧
      Bindings.ofModel .default model = .ok bindings ∧
      (documentedFlags "1\nfn" "" "0").bare = (documentedFlags "1" "" "0").bare ∧
      ofDocument .default (documentedFlags "1\nfn" "" "0") = .ok versioned ∧
      Bindings.ofModel .default versioned = .ok versionedBindings ∧
      versionedBindings.code ≠ bindings.code ∧
      (documentedFlags "1" "" "0\nfn").bare = (documentedFlags "1" "" "0").bare ∧
      ofDocument .default (documentedFlags "1" "" "0\nfn") = .ok defaulted ∧
      Bindings.ofModel .default defaulted = .ok defaultedBindings ∧
      defaultedBindings.code ≠ bindings.code := by
  have hplain : (generated? (documentedFlags "1" "" "0")).map (fun generated =>
      (generated.1.versionCode, generated.1.defaultCodes)) = some ([], [[[]]]) := by
    decide +kernel
  have hversion : (generated? (documentedFlags "1\nfn" "" "0")).map (fun generated =>
      generated.1.versionCode) = some ["fn.".toList] := by
    decide +kernel
  have hdefault : (generated? (documentedFlags "1" "" "0\nfn")).map (fun generated =>
      generated.1.defaultCodes) = some [[["fn`.".toList]]] := by
    decide +kernel
  obtain ⟨model, bindings, hmodel, hbindings, hplain⟩ := exists_of_generated?
    (fun model => (model.versionCode, model.defaultCodes)) hplain
  obtain ⟨versioned, versionedBindings, hversioned, hversionedBindings, hversion⟩ :=
    exists_of_generated? versionCode hversion
  obtain ⟨defaulted, defaultedBindings, hdefaulted, hdefaultedBindings, hdefault⟩ :=
    exists_of_generated? defaultCodes hdefault
  obtain ⟨hplainVersion, hplainDefaults⟩ := Prod.mk.inj hplain
  have hlines := isInLines_of_ofDocument hmodel
  refine ⟨model, bindings, versioned, versionedBindings, defaulted, defaultedBindings, hmodel,
    hbindings, bare_documentedFlags .., hversioned, hversionedBindings, fun hcode => ?_,
    bare_documentedFlags .., hdefaulted, hdefaultedBindings, fun hcode => ?_⟩
  · have hbare := bare_eq_of_ofDocument (bare_documentedFlags ..) hversioned hmodel
    obtain ⟨other, hother, hiff⟩ := exists_ofModel_of_bare_eq hbare
      (isInLines_of_ofDocument hversioned) hlines hversionedBindings
    cases hother.symm.trans hbindings
    have hsame := (hiff.mp hcode).1
    rw [hversion, hplainVersion] at hsame
    cases hsame
  · have hbare := bare_eq_of_ofDocument (bare_documentedFlags ..) hdefaulted hmodel
    obtain ⟨other, hother, hiff⟩ := exists_ofModel_of_bare_eq hbare
      (isInLines_of_ofDocument hdefaulted) hlines hdefaultedBindings
    cases hother.symm.trans hbindings
    have hnone := (codeOf_bitFields_eq_iff hbare (isInLines_of_ofDocument hdefaulted) hlines
      (by rw [hplainDefaults]; decide)).mp (hiff.mp hcode).2
    rw [hdefault] at hnone
    exact absurd hnone (by decide)

end Model

end NifBindings
