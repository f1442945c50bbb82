import NifBindings.Bindings
import NifBindings.Proofs.Expr.Shape
import NifBindings.Proofs.Field.Presence
import NifBindings.Proofs.Source.Annotation
import NifBindings.Proofs.Source.Failure
import NifBindings.Proofs.Source.Forwarding
import NifBindings.Proofs.Source.ReadOrder
import NifBindings.Proofs.Source.Reference

/-!
# The argument of a reader

An expression uses the argument of its reader only where the text of a field mentions it, and
whether a compound imports one is decided by these texts. So every compound imports the argument
that its fields use, and what refers to a compound passes one exactly if it is imported there. An
object never imports one, so that its fields may not use it.
-/

namespace NifBindings

namespace Expr

/-- Whether an expression uses the argument of the reader. -/
def usesArgument : Expr → Bool
  | .numeral _ => false
  | .reference target => target == .argument
  | .group inner => inner.usesArgument
  | .binary lhs _ rhs => lhs.usesArgument || rhs.usesArgument
  | .unary _ inner => inner.usesArgument

@[simp] theorem usesArgument_asOperand (expr : Expr) :
    expr.asOperand.usesArgument = expr.usesArgument := by
  unfold asOperand
  split <;> rfl

@[simp] theorem usesArgument_withUnary (ops : List UnaryOperator) (expr : Expr) :
    (withUnary ops expr).usesArgument = expr.usesArgument := by
  cases ops <;> rfl

/-- A name or a numeral uses the argument exactly if it is the name for it. -/
theorem usesArgument_leaf_iff {text : String} :
    (leaf text).usesArgument = true ↔ text = "#ARG#" := by
  constructor
  · intro h
    unfold leaf at h
    split at h
    · cases h
    · rw [usesArgument, beq_iff_eq] at h
      unfold Reference.ofName at h
      split at h
      next hname => exact hname
      next =>
        split at h <;> cases h
  · rintro rfl
    rfl

/-- An expression uses the argument only if its text mentions it. -/
theorem Reads.isInfix_of_usesArgument {text : List Char} {expr : Expr} (h : Reads text expr)
    (huses : expr.usesArgument = true) : "#ARG#".toList <:+: text := by
  induction h with
  | @leaf text hleaf =>
    have htext : "#ARG#".toList = text := by
      rw [← usesArgument_leaf_iff.mp huses, String.toList_ofList]
    exact htext ▸ List.infix_rfl
  | left hfound _ _ ih =>
    rw [usesArgument_asOperand] at huses
    exact (ih huses).trans (isInfix_of_matchShape? hfound).1
  | node hfound _ _ _ ihlhs ihrhs =>
    obtain ⟨hlhs, -, hrhs⟩ := isInfix_of_matchShape? hfound
    rw [usesArgument_withUnary, usesArgument, usesArgument_asOperand, usesArgument_asOperand,
      Bool.or_eq_true] at huses
    rcases huses with huses | huses
    · exact (ihlhs huses).trans hlhs
    · exact (ihrhs huses).trans hrhs

/-- A text whose expression uses the argument refers to it. -/
theorem refersToArgument_of_parse {text : String} {expr : Expr} (h : parse text = .ok expr)
    (huses : expr.usesArgument = true) : FieldType.refersToArgument text = true := by
  obtain ⟨before, behind, htext⟩ := (parseChars_eq_ok_iff.mp h).isInfix_of_usesArgument huses
  exact Text.occursIn_iff.mpr ⟨before, behind, htext.symm⟩

end Expr

namespace FieldDeclaration

/-- Whether the count, the guard or the arguments of a declared field use the argument of the
reader. -/
def usesArgument (field : FieldDeclaration) : Bool :=
  field.count.any Expr.usesArgument || field.guard.condition.any Expr.usesArgument ||
    match field.arguments with
    | some (.argument value) => value.usesArgument
    | _ => false

/-- Every line of a declared field is indented. -/
theorem head?_of_mem_lines {field : FieldDeclaration} {line : String} (h : line ∈ field.lines) :
    line.toList.head? = some ' ' := by
  have hfront {front : String} (hhead : front.toList.head? = some ' ') (back : String) :
      (front ++ back).toList.head? = some ' ' := by
    rw [String.toList_append, List.head?_append, hhead]
    rfl
  simp only [lines, List.mem_append, Option.mem_toList, Option.map_eq_some_iff,
    List.mem_singleton] at h
  rcases h with (((⟨count, -, h⟩ | ⟨mapping, -, h⟩) | ⟨guard, -, h⟩) | ⟨arguments, -, h⟩) | h
  · rw [← h]
    exact hfront (hfront (by decide) _) _
  · rw [← h]
    exact hfront (hfront (by decide) _) _
  · rw [← h]
    exact hfront (hfront (by decide) _) _
  · rw [← h]
    unfold argumentsLine
    split
    · exact hfront (hfront (by decide) _) _
    · exact hfront (hfront (by decide) _) _
  · rw [h]
    exact hfront (hfront (hfront (hfront (by decide) _) _) _) _

end FieldDeclaration

namespace FieldType

variable {profile : Profile} {model : Model} {name : String} {type : FieldType}
  {field : FieldDeclaration}

/-- A type mentions the argument if one of its texts refers to it. -/
theorem mentionsArgument_of_mem {text : String}
    (hmem : some text ∈ [type.condition, type.length, type.extraLength, type.argument])
    (h : refersToArgument text = true) : type.mentionsArgument = true :=
  List.any_eq_true.mpr ⟨some text, hmem, h⟩

/-- The count of a field that another field counts is the expression of its text. -/
theorem exists_parse_of_countExpr {expr : Expr} (h : type.countExpr = .ok (some expr)) :
    ∃ text, type.length = some text ∧ Expr.parse text = .ok expr := by
  unfold countExpr extent at h
  cases hlength : type.length with
  | none =>
    rw [hlength] at h
    cases h
  | some text =>
    rw [hlength] at h
    dsimp only at h
    split at h
    next hcounted =>
      split at hcounted
      · cases hcounted
      · cases hcounted
        obtain ⟨found, hparse, hfound⟩ := map_eq_ok_iff.mp h
        cases hfound
        exact ⟨text, rfl, hparse⟩
    next => cases h

/-- A declared field uses the argument only if its type mentions it. -/
theorem mentionsArgument_of_declaration (h : type.declaration profile model name = .ok field)
    (huses : field.usesArgument = true) : type.mentionsArgument = true := by
  obtain ⟨guard, hguard, h⟩ := bind_eq_ok_iff.mp h
  obtain ⟨count, hcount, h⟩ := bind_eq_ok_iff.mp h
  cases h
  rw [FieldDeclaration.usesArgument, Bool.or_eq_true, Bool.or_eq_true, Option.any_eq_true,
    Option.any_eq_true] at huses
  rcases huses with (⟨expr, rfl, huses⟩ | ⟨expr, hexpr, huses⟩) | huses
  · obtain ⟨text, htext, hparse⟩ := exists_parse_of_countExpr hcount
    exact mentionsArgument_of_mem (by simp [htext]) (Expr.refersToArgument_of_parse hparse huses)
  · have hcondition := (guard_eq_ok_iff.mp hguard).1
    rw [conditionExpr, hexpr] at hcondition
    cases htext : type.condition with
    | none =>
      rw [htext] at hcondition
      cases hcondition
    | some text =>
      rw [htext] at hcondition
      obtain ⟨found, hparse, hfound⟩ := readOptional_some_eq_ok_iff.mp hcondition
      cases hfound
      exact mentionsArgument_of_mem (by simp [htext]) (Expr.refersToArgument_of_parse hparse huses)
  · unfold readerArguments at huses
    split at huses
    next value hvalue =>
      split at hvalue
      · split at hvalue
        · cases hvalue
          cases htext : type.argument with
          | none =>
            rw [argumentExpr, htext] at huses
            cases huses
          | some text =>
            rw [argumentExpr, htext] at huses
            have hrefers : refersToArgument text = true := by
              rw [Expr.usesArgument_leaf_iff.mp huses]
              rfl
            exact mentionsArgument_of_mem (by simp [htext]) hrefers
        · cases hvalue
      · cases hvalue
    next => cases huses

/-- A declared field has the condition of its type. -/
theorem condition_of_declaration (h : type.declaration profile model name = .ok field)
    {text : String} {expr : Expr} (hcondition : type.condition = some text)
    (hparse : Expr.parse text = .ok expr) : field.guard.condition = some expr := by
  have hexpr := (guard_eq_ok_iff.mp (guard_of_declaration h).2).1
  rw [conditionExpr, hcondition] at hexpr
  obtain ⟨found, hfound, hsame⟩ := readOptional_some_eq_ok_iff.mp hexpr
  cases hparse.symm.trans hfound
  exact hsame

end FieldType

section Declared

variable {profile : Profile} {model : Model}

/-- Every field of a map is declared under its name. -/
theorem FieldMap.exists_declaration_of_mem {fields : FieldMap} {declared : List FieldDeclaration}
    (h : fields.declarations profile model = .ok declared) {named : String × FieldType}
    (hmem : named ∈ fields.entries) :
    ∃ field ∈ declared, field.name = named.1 ∧
      named.2.declaration profile model field.name = .ok field := by
  obtain ⟨field, hfield, hdeclaration⟩ := exists_mem_of_mapM h hmem
  have hname := (FieldType.guard_of_declaration hdeclaration).1
  exact ⟨field, hfield, hname, hname ▸ hdeclaration⟩

/-- Every compound of a model that is not written by hand is declared with its fields. -/
theorem Compound.exists_declaration_of_mem {compounds : List CompoundDeclaration}
    (h : Compound.declarations profile model = .ok compounds) {compound : Compound}
    (hmem : compound ∈ model.compounds.values) (hmanual : profile.isManual compound.name = false) :
    ∃ declaration ∈ compounds, declaration.name = compound.name ∧
      compound.fields.declarations profile model = .ok declaration.fields := by
  obtain ⟨declaration, hdeclaration, hmade⟩ :=
    exists_mem_of_mapM h (List.mem_filter.mpr ⟨hmem, by rw [hmanual]; rfl⟩)
  obtain ⟨fields, hfields, hsame⟩ := bind_eq_ok_iff.mp hmade
  cases hsame
  exact ⟨_, hdeclaration, rfl, hfields⟩

/-- Every object of a model is declared with its fields. -/
theorem NiObject.exists_declaration_of_mem {objects : List ObjectDeclaration}
    (h : NiObject.declarations profile model = .ok objects) {object : NiObject}
    (hmem : object ∈ model.objects.values) :
    ∃ declaration ∈ objects, object.fields.declarations profile model = .ok declaration.fields := by
  obtain ⟨declaration, hdeclaration, hmade⟩ := exists_mem_of_mapM h hmem
  obtain ⟨fields, hfields, hsame⟩ := bind_eq_ok_iff.mp hmade
  cases hsame
  exact ⟨_, hdeclaration, hfields⟩

/-- The sources of compounds and objects are made of their declarations. -/
theorem Bindings.exists_declarations_of_ofModel {bindings : Bindings}
    (h : Bindings.ofModel profile model = .ok bindings) :
    ∃ compounds objects, Compound.declarations profile model = .ok compounds ∧
      NiObject.declarations profile model = .ok objects ∧
      bindings.compounds = joinLines (Bindings.header model.version ++
        (Compound.preamble profile ++ compounds.flatMap CompoundDeclaration.lines)) ∧
      bindings.objects = joinLines (Bindings.header model.version ++
        (NiObject.preamble ++ (Dispatcher.ofModel profile model).lines ++
          objects.flatMap ObjectDeclaration.lines)) := by
  obtain ⟨body, hsources, -, -, -, hcompoundBody, hobjectBody⟩ := Bindings.exists_of_ofModel h
  obtain ⟨compounds, hcompounds, hcompoundLines⟩ := bind_eq_ok_iff.mp hcompoundBody
  obtain ⟨objects, hobjects, hobjectLines⟩ := bind_eq_ok_iff.mp hobjectBody
  have hcompoundText := hsources .compound
  have hobjectText := hsources .object
  rw [← Except.ok.inj hcompoundLines] at hcompoundText
  rw [← Except.ok.inj hobjectLines] at hobjectText
  exact ⟨compounds, objects, hcompounds, hobjects, hcompoundText, hobjectText⟩

end Declared

/-- The lines that import the parameters of a reader. -/
def importLines (lines : List String) : List String :=
  lines.filter (Text.beginsWith · "#[br(import(")

/-- Whether the parameters that a structure imports are an argument and the version. -/
def ImportsArgument (lines : List String) : Prop :=
  importLines lines = [CompoundDeclaration.importLine true]

@[simp] theorem importLines_append (a b : List String) :
    importLines (a ++ b) = importLines a ++ importLines b :=
  List.filter_append a b

/-- A line that begins with another character imports nothing. -/
theorem importLines_eq_nil {lines : List String}
    (h : ∀ line ∈ lines, line.toList.head? ≠ some '#') : importLines lines = [] := by
  rw [importLines, List.filter_eq_nil_iff]
  intro line hline hbegins
  rw [Text.beginsWith, List.isPrefixOf_iff_prefix] at hbegins
  obtain ⟨rest, hrest⟩ := hbegins
  exact h line hline (by rw [← hrest]; rfl)

/-- Every line of the documentation of a structure begins with a slash. -/
theorem head?_of_mem_docComment {doc : List String} {line : String}
    (h : line ∈ docComment "" doc) : line.toList.head? = some '/' := by
  obtain ⟨text, -, rfl⟩ := List.mem_map.mp h
  unfold docLine
  split <;> simp

/-- Documentation imports nothing. -/
theorem importLines_docComment (doc : List String) : importLines (docComment "" doc) = [] := by
  refine importLines_eq_nil fun line hline => ?_
  rw [head?_of_mem_docComment hline]
  decide

/-- Declared fields import nothing. -/
theorem importLines_fields (fields : List FieldDeclaration) :
    importLines (fields.flatMap FieldDeclaration.lines) = [] := by
  refine importLines_eq_nil fun line hline => ?_
  obtain ⟨field, -, hmem⟩ := List.mem_flatMap.mp hline
  rw [FieldDeclaration.head?_of_mem_lines hmem]
  decide

/-- Between the documentation and the fields of a structure, its import line is the only one that
imports something. -/
theorem importLines_structure {doc base : List String} {head : String}
    {fields : List FieldDeclaration} (imports : Bool) (hhead : head.toList.head? = some 'p')
    (hbase : importLines base = []) :
    importLines (docComment "" doc ++
        ["#[binread]", "#[derive(Clone, Debug, PartialEq)]",
          CompoundDeclaration.importLine imports, head] ++
        base ++ fields.flatMap FieldDeclaration.lines ++ ["\x7d", ""]) =
      [CompoundDeclaration.importLine imports] := by
  have hattributes : importLines ["#[binread]", "#[derive(Clone, Debug, PartialEq)]",
      CompoundDeclaration.importLine imports] = [CompoundDeclaration.importLine imports] := by
    cases imports <;> rfl
  have hbegin : importLines [head] = [] := importLines_eq_nil (by simp [hhead])
  have hend : importLines ["\x7d", ""] = [] := rfl
  have hlast (a b c d : String) : [a, b, c, d] = [a, b, c] ++ [d] := rfl
  rw [hlast]
  simp only [importLines_append, importLines_docComment, importLines_fields, hattributes, hbegin,
    hbase, hend, List.nil_append, List.append_nil]

/-- The line that begins a compound is not indented. -/
theorem CompoundDeclaration.head?_headLine (compound : CompoundDeclaration) :
    compound.headLine.toList.head? = some 'p' := by
  unfold headLine
  split <;> simp

/-- The lines of a compound import the argument if its reader takes one, and the version. -/
theorem CompoundDeclaration.importLines_lines (compound : CompoundDeclaration) :
    importLines compound.lines = [importLine compound.takesArgument] := by
  have hnothing : importLines [] = [] := rfl
  rw [← importLines_structure compound.takesArgument compound.head?_headLine hnothing,
    List.append_nil]
  rfl

/-- The lines of an object import the version alone. -/
theorem ObjectDeclaration.importLines_lines (object : ObjectDeclaration) :
    importLines object.lines = [CompoundDeclaration.importLine false] := by
  have hbase : importLines ((object.base?.map baseLines).getD []) = [] := by
    refine importLines_eq_nil fun line hline => ?_
    cases hbase : object.base? with
    | none =>
      rw [hbase] at hline
      cases hline
    | some parent =>
      rw [hbase] at hline
      rcases List.mem_pair.mp hline with rfl | rfl <;> simp
  have hhead : ("pub struct " ++ object.name ++ " \x7b").toList.head? = some 'p' := by simp
  exact importLines_structure false hhead hbase

/-- A compound imports the argument exactly if its reader takes one. -/
theorem CompoundDeclaration.importsArgument_iff (compound : CompoundDeclaration) :
    ImportsArgument compound.lines ↔ compound.takesArgument = true := by
  rw [ImportsArgument, importLines_lines]
  cases compound.takesArgument <;> simp [importLine]

/-- No object imports an argument. -/
theorem ObjectDeclaration.not_importsArgument (object : ObjectDeclaration) :
    ¬ImportsArgument object.lines := by
  rw [ImportsArgument, importLines_lines]
  simp [CompoundDeclaration.importLine]

/-- Whether the lines of a field pass one argument in front of the version, to the reader of the
field or to those of its elements. -/
def PassesArgument (lines : List String) : Prop :=
  ∃ value, FieldLine.arguments.among lines =
      ["    #[br(args(" ++ value ++ " as usize, _header_version))]"] ∨
    FieldLine.arguments.among lines =
      ["    #[br(args \x7b inner: (" ++ value ++ " as usize, _header_version) \x7d)]"]

/-- What is given to a reader is written in one of two ways. -/
theorem FieldDeclaration.argumentsLine_cases (extent : Extent) (arguments : ReaderArguments) :
    argumentsLine extent arguments = "    #[br(args(" ++ arguments.render ++ "))]" ∨
      argumentsLine extent arguments =
        "    #[br(args \x7b inner: (" ++ arguments.render ++ ") \x7d)]" := by
  unfold argumentsLine
  split
  · exact .inr rfl
  · exact .inl rfl

/-- The version alone is not written as an argument in front of it. -/
theorem FieldDeclaration.argumentsLine_version_ne (extent : Extent) (value : String) :
    argumentsLine extent .version ≠ "    #[br(args(" ++ value ++ " as usize, _header_version))]" ∧
      argumentsLine extent .version ≠
        "    #[br(args \x7b inner: (" ++ value ++ " as usize, _header_version) \x7d)]" := by
  have hends {line front back : String} (h : ¬back.toList <:+ line.toList) :
      line ≠ front ++ value ++ back := by
    rintro rfl
    exact h ⟨(front ++ value).toList, (String.toList_append).symm⟩
  rcases argumentsLine_cases extent .version with hline | hline
  · rw [hline]
    exact ⟨hends (by decide), hends (by decide)⟩
  · rw [hline]
    exact ⟨hends (by decide), hends (by decide)⟩

/-- The lines of a declared field pass an argument exactly if its reader is given one. -/
theorem FieldDeclaration.passesArgument_lines_iff (field : FieldDeclaration) :
    PassesArgument field.lines ↔ ∃ value, field.arguments = some (.argument value) := by
  rw [PassesArgument, field.among_lines .arguments, linesOf]
  constructor
  · rintro ⟨value, hlines⟩
    cases harguments : field.arguments with
    | none => simp [harguments] at hlines
    | some arguments =>
      cases arguments with
      | argument value => exact ⟨value, rfl⟩
      | version =>
        have hne := argumentsLine_version_ne field.extent value
        simp [harguments, hne] at hlines
  · rintro ⟨value, hvalue⟩
    have hline := argumentsLine_cases field.extent (.argument value)
    have hjoined (front back : String) :
        front ++ (ReaderArguments.argument value).render ++ back =
          front ++ value.render ++ (" as usize, _header_version" ++ back) := by
      simp only [ReaderArguments.render, String.append_assoc]
    rw [hjoined, hjoined] at hline
    refine ⟨value.render, ?_⟩
    rw [hvalue, Option.map_some, Option.toList_some]
    exact hline.imp (congrArg fun line => [line]) (congrArg fun line => [line])

namespace Model

variable {building generating : Profile} {document : Document} {model : Model}

/-- A compound of a model is stored under its own name. -/
theorem get?_compounds_of_mem (hmodel : ofDocument building document = .ok model)
    {compound : Compound} (hmem : compound ∈ model.compounds.values) :
    model.compounds.get? compound.name = some compound := by
  obtain ⟨⟨name, compound⟩, hstored, rfl⟩ := List.mem_map.mp hmem
  have hentity : (name, Entity.compound compound) ∈ (model.entities .compound).entries :=
    List.mem_map.mpr ⟨(name, compound), hstored, rfl⟩
  obtain ⟨entry, -, hentry⟩ := exists_entry_of_mem hmodel hentity
  obtain ⟨⟨read, findings⟩, -, hsame⟩ := map_eq_ok_iff.mp hentry
  cases hsame
  exact OrderedMap.get?_eq_some_iff.mpr hstored

/-- A declared compound is one of the model, and takes an argument if the model says so. -/
theorem exists_of_mem_declarations (hmodel : ofDocument building document = .ok model)
    {compounds : List CompoundDeclaration}
    (h : Compound.declarations generating model = .ok compounds) {compound : CompoundDeclaration}
    (hmem : compound ∈ compounds) :
    ∃ described, model.compounds.get? compound.name = some described ∧
      compound.takesArgument = NifBindings.takesArgument generating model compound.name ∧
      described.fields.declarations generating model = .ok compound.fields := by
  obtain ⟨described, hdescribed, hdeclaration⟩ := exists_of_mem_mapM h hmem
  obtain ⟨fields, hfields, hsame⟩ := bind_eq_ok_iff.mp hdeclaration
  cases hsame
  exact ⟨described, get?_compounds_of_mem hmodel (List.mem_filter.mp hdescribed).1, rfl, hfields⟩

/-- Every compound imports the argument that its fields use. -/
theorem importsArgument_of_usesArgument (hmodel : ofDocument building document = .ok model)
    {compounds : List CompoundDeclaration}
    (h : Compound.declarations generating model = .ok compounds) {compound : CompoundDeclaration}
    (hmem : compound ∈ compounds) {field : FieldDeclaration} (hfield : field ∈ compound.fields)
    (huses : field.usesArgument = true) : ImportsArgument compound.lines := by
  obtain ⟨described, hdescribed, htakes, hfields⟩ := exists_of_mem_declarations hmodel h hmem
  obtain ⟨⟨name, type⟩, htype, hdeclaration⟩ := exists_of_mem_mapM hfields hfield
  have hmentions : described.mentionsArgument = true :=
    List.any_eq_true.mpr ⟨type, List.mem_map.mpr ⟨(name, type), htype, rfl⟩,
      FieldType.mentionsArgument_of_declaration hdeclaration huses⟩
  rw [compound.importsArgument_iff, htakes, NifBindings.takesArgument, hdescribed, Bool.or_eq_true]
  exact .inr hmentions

/-- A field of the type of a generated compound passes an argument exactly if this imports one. -/
theorem passesArgument_iff (hmodel : ofDocument building document = .ok model)
    {compounds : List CompoundDeclaration}
    (h : Compound.declarations generating model = .ok compounds) {compound : CompoundDeclaration}
    (hmem : compound ∈ compounds) {name : String} {type : FieldType} {field : FieldDeclaration}
    (hfield : type.declaration generating model name = .ok field)
    (hbase : type.base = compound.name) :
    PassesArgument field.lines ↔ ImportsArgument compound.lines := by
  obtain ⟨described, hdescribed, htakes, -⟩ := exists_of_mem_declarations hmodel h hmem
  have hcontains : model.compounds.contains type.base = true := by
    rw [hbase, OrderedMap.contains, hdescribed]
    rfl
  rw [compound.importsArgument_iff, htakes, ← hbase, field.passesArgument_lines_iff,
    (FieldType.arguments_of_declaration hfield).2, FieldType.readerArguments, if_pos hcontains]
  split
  next htaken => exact ⟨fun _ => htaken, fun _ => ⟨_, rfl⟩⟩
  next htaken =>
    constructor
    · rintro ⟨value, hvalue⟩
      cases hvalue
    · exact fun htrue => absurd htrue htaken

/-- Every field of a declared object is declared for a type. -/
theorem exists_declaration_of_mem_objects {objects : List ObjectDeclaration}
    (h : NiObject.declarations generating model = .ok objects) {object : ObjectDeclaration}
    (hmem : object ∈ objects) :
    ∃ fields : FieldMap, fields.declarations generating model = .ok object.fields := by
  obtain ⟨described, -, hdeclaration⟩ := exists_of_mem_mapM h hmem
  obtain ⟨fields, hfields, hsame⟩ := bind_eq_ok_iff.mp hdeclaration
  cases hsame
  exact ⟨described.fields, hfields⟩

/-- The argument of a reader and its imports. Every compound imports the argument if one of its
fields uses it. An object imports none, so that what its fields use is in scope exactly if no field
uses the argument. And every field whose type is a generated compound passes an argument in front of
the version exactly if that compound imports one. -/
theorem argument_imported_iff {bindings : Bindings}
    (hmodel : ofDocument building document = .ok model)
    (hbindings : Bindings.ofModel generating model = .ok bindings) :
    ∃ compounds objects, Compound.declarations generating model = .ok compounds ∧
      NiObject.declarations generating model = .ok objects ∧
      bindings.compounds = joinLines (Bindings.header model.version ++
        (Compound.preamble generating ++ compounds.flatMap CompoundDeclaration.lines)) ∧
      bindings.objects = joinLines (Bindings.header model.version ++
        (NiObject.preamble ++ (Dispatcher.ofModel generating model).lines ++
          objects.flatMap ObjectDeclaration.lines)) ∧
      (∀ compound ∈ compounds, (∃ field ∈ compound.fields, field.usesArgument = true) →
        ImportsArgument compound.lines) ∧
      (∀ object ∈ objects, ¬ImportsArgument object.lines ∧
        (((∃ field ∈ object.fields, field.usesArgument = true) → ImportsArgument object.lines) ↔
          ∀ field ∈ object.fields, field.usesArgument = false)) ∧
      ∀ fields ∈ compounds.map CompoundDeclaration.fields ++ objects.map ObjectDeclaration.fields,
        ∀ field ∈ fields,
          (∃ type, FieldType.declaration generating model field.name type = .ok field) ∧
          ∀ type, FieldType.declaration generating model field.name type = .ok field →
            ∀ compound ∈ compounds, type.base = compound.name →
              (PassesArgument field.lines ↔ ImportsArgument compound.lines) := by
  obtain ⟨compounds, objects, hcompounds, hobjects, hcompoundText, hobjectText⟩ :=
    Bindings.exists_declarations_of_ofModel hbindings
  refine ⟨compounds, objects, hcompounds, hobjects, hcompoundText, hobjectText, ?_, ?_, ?_⟩
  · rintro compound hmem ⟨field, hfield, huses⟩
    exact importsArgument_of_usesArgument hmodel hcompounds hmem hfield huses
  · intro object hmem
    have hnot := object.not_importsArgument
    refine ⟨hnot, fun himports field hfield => ?_, fun hnone => ?_⟩
    · exact Bool.eq_false_iff.mpr fun huses => hnot (himports ⟨field, hfield, huses⟩)
    · rintro ⟨field, hfield, huses⟩
      rw [hnone field hfield] at huses
      cases huses
  · intro fields hmem field hfield
    have hdeclared : ∃ map : FieldMap, map.declarations generating model = .ok fields := by
      rcases List.mem_append.mp hmem with hmem | hmem
      · obtain ⟨compound, hcompound, rfl⟩ := List.mem_map.mp hmem
        obtain ⟨described, -, -, hfields⟩ := exists_of_mem_declarations hmodel hcompounds hcompound
        exact ⟨described.fields, hfields⟩
      · obtain ⟨object, hobject, rfl⟩ := List.mem_map.mp hmem
        exact exists_declaration_of_mem_objects hobjects hobject
    obtain ⟨map, hmap⟩ := hdeclared
    obtain ⟨⟨name, type⟩, -, hdeclaration⟩ := exists_of_mem_mapM hmap hfield
    obtain rfl := (FieldType.guard_of_declaration hdeclaration).1
    refine ⟨⟨type, hdeclaration⟩, fun other hother compound hcompound hbase => ?_⟩
    exact passesArgument_iff hmodel hcompounds hcompound hother hbase

/-- A model whose fields only write expressions has bindings. -/
theorem exists_bindings (hmodel : ofDocument building document = .ok model)
    (hreadable : ∀ type, model.Generates generating type → ∀ text, type.Writes text →
      ∃ expr, Expr.parse text = .ok expr) :
    ∃ bindings, Bindings.ofModel generating model = .ok bindings := by
  cases hbindings : Bindings.ofModel generating model with
  | ok bindings => exact ⟨bindings, rfl⟩
  | error error =>
    obtain ⟨type, htype, text, hwrites, herror⟩ := Bindings.exists_of_ofModel_eq_error
      (fun type htype => exists_versionRange_of_stores hmodel htype) hbindings
    obtain ⟨expr, hexpr⟩ := hreadable type htype text hwrites
    rw [herror] at hexpr
    cases hexpr

/-- A member with a condition on the argument of the reader. -/
def argumentMember : Element :=
  fieldElement [("cond", "#ARG# #EQ# 1")]

/-- A member of the type of a compound, to which it passes an argument. -/
def boundMember : Element where
  tag := "field"
  attributes := .ofList [("name", "Bound"), ("type", "Bounds"), ("arg", "2")]
  text := ""
  children := []

/-- A document with a compound that uses the argument, and an object that does so too and has a
field of the type of the compound. -/
def argumentDocument : Document :=
  ⟨none, [compoundElement [argumentMember],
    ⟨"niobject", .ofList [("name", "NiNode"), ("inherit", "NiObject")], "",
      [argumentMember, boundMember]⟩]⟩

/-- The type of a field with a condition on the argument of the reader. -/
def argumentType : FieldType :=
  { base := "f32", condition := some "#ARG# #EQ# 1" }

/-- The type of a field that passes an argument. -/
def boundType : FieldType :=
  { base := "Bounds", argument := some "2" }

/-- A condition on the argument of the reader is read as a comparison of it. -/
theorem parse_argumentType :
    Expr.parse "#ARG# #EQ# 1" = .ok (.binary (.reference .argument) .eq (.numeral "1")) := by
  have hfound : matchShape? "#ARG# #EQ# 1".toList =
      some ⟨.bare, [], "#ARG#".toList, .symbolic .eq, "1".toList⟩ := by
    decide +kernel
  have hreads : Expr.Reads "#ARG# #EQ# 1".toList _ :=
    .node hfound (by decide) (.leaf (by rfl)) (.leaf (by rfl))
  exact (Expr.parseChars_eq_ok_iff.mpr hreads).trans (by rfl)

/-- The document has a model and bindings, with one compound and one object. -/
theorem exists_argumentDocument :
    ∃ model bindings compound object, ofDocument .default argumentDocument = .ok model ∧
      Bindings.ofModel .default model = .ok bindings ∧
      model.compounds.values = [compound] ∧ compound.name = "Bounds" ∧
      compound.fields.entries = [("radius", argumentType)] ∧ model.objects.values = [object] ∧
      object.fields.entries = [("radius", argumentType), ("bound", boundType)] := by
  have hview : (ofDocument .default argumentDocument).toOption.map (fun model =>
      (model.compounds.values.map fun compound => (compound.name, compound.fields.entries),
        model.objects.values.map fun object => object.fields.entries)) =
      some ([("Bounds", [("radius", argumentType)])],
        [[("radius", argumentType), ("bound", boundType)]]) := by
    decide +kernel
  cases hmodel : ofDocument .default argumentDocument with
  | error error =>
    rw [hmodel] at hview
    cases hview
  | ok model =>
    simp only [hmodel, Except.toOption, Option.map_some, Option.some.injEq, Prod.mk.injEq] at hview
    obtain ⟨compound, hcompounds, hcompound⟩ := List.map_eq_singleton_iff.mp hview.1
    obtain ⟨object, hobjects, hobject⟩ := List.map_eq_singleton_iff.mp hview.2
    obtain ⟨hname, hfields⟩ := Prod.mk.inj hcompound
    have htype {type : FieldType} (h : model.Generates .default type) :
        type = argumentType ∨ type = boundType := by
      cases h with
      | compound hmem _ htype =>
        rw [hcompounds, List.mem_singleton] at hmem
        rw [hmem, OrderedMap.values, hfields] at htype
        exact .inl (List.mem_singleton.mp htype)
      | object hmem htype =>
        rw [hobjects, List.mem_singleton] at hmem
        rw [hmem, OrderedMap.values, hobject] at htype
        exact List.mem_pair.mp htype
    have hreadable (type : FieldType) (hgenerates : model.Generates .default type) (text : String)
        (hwrites : type.Writes text) : ∃ expr, Expr.parse text = .ok expr := by
      rcases htype hgenerates with rfl | rfl
      · cases hwrites with
        | condition htext =>
          cases htext
          exact ⟨_, parse_argumentType⟩
        | count htext => cases htext
      · cases hwrites with
        | condition htext => cases htext
        | count htext => cases htext
    obtain ⟨bindings, hbindings⟩ := exists_bindings hmodel hreadable
    exact ⟨model, bindings, compound, object, rfl, hbindings, hcompounds, hname, hfields, hobjects,
      hobject⟩

/-- A field declared for the type with a condition on the argument uses it. -/
theorem usesArgument_of_argumentType {profile : Profile} {name : String} {field : FieldDeclaration}
    (h : argumentType.declaration profile model name = .ok field) : field.usesArgument = true := by
  have hcondition := FieldType.condition_of_declaration h rfl parse_argumentType
  simp [FieldDeclaration.usesArgument, hcondition, Expr.usesArgument]

/-- The compound imports the argument that its field uses, and the object passes one to it. -/
theorem argument_imported_iff_bounds :
    ∃ model bindings compounds objects compound object field,
      ofDocument .default argumentDocument = .ok model ∧
      Bindings.ofModel .default model = .ok bindings ∧
      Compound.declarations .default model = .ok compounds ∧
      NiObject.declarations .default model = .ok objects ∧ compound ∈ compounds ∧
      ImportsArgument compound.lines ∧ object ∈ objects ∧ field ∈ object.fields ∧
      field.name = "bound" ∧ PassesArgument field.lines := by
  obtain ⟨model, bindings, bounds, node, hmodel, hbindings, hbounds, hname, hboundsFields, hnode,
    hnodeFields⟩ := exists_argumentDocument
  obtain ⟨compounds, objects, hcompounds, hobjects, -, -, himports, -, hpasses⟩ :=
    argument_imported_iff hmodel hbindings
  have hmanual : Profile.default.isManual bounds.name = false := by
    rw [hname]
    decide
  obtain ⟨compound, hcompound, hsame, hfields⟩ := Compound.exists_declaration_of_mem hcompounds
    (hbounds ▸ List.mem_singleton_self bounds) hmanual
  obtain ⟨object, hobject, hown⟩ :=
    NiObject.exists_declaration_of_mem hobjects (hnode ▸ List.mem_singleton_self node)
  obtain ⟨radius, hradius, -, hradiusDeclared⟩ := FieldMap.exists_declaration_of_mem hfields
    (hboundsFields ▸ List.mem_singleton_self ("radius", argumentType))
  obtain ⟨bound, hbound, hboundName, hboundDeclared⟩ := FieldMap.exists_declaration_of_mem hown
    (hnodeFields ▸ List.mem_cons_of_mem _ (List.mem_singleton_self ("bound", boundType)))
  have himported := himports compound hcompound
    ⟨radius, hradius, usesArgument_of_argumentType hradiusDeclared⟩
  have hiff := (hpasses object.fields (List.mem_append_right _ (List.mem_map_of_mem hobject)) bound
    hbound).2 boundType hboundDeclared compound hcompound (hname.symm.trans hsame.symm)
  exact ⟨model, bindings, compounds, objects, compound, object, bound, hmodel, hbindings,
    hcompounds, hobjects, hcompound, himported, hobject, hbound, hboundName, hiff.mpr himported⟩

/-- The field of the object compares an argument that the object does not import. -/
theorem not_importsArgument_node :
    ∃ model bindings objects object field, ofDocument .default argumentDocument = .ok model ∧
      Bindings.ofModel .default model = .ok bindings ∧
      NiObject.declarations .default model = .ok objects ∧ object ∈ objects ∧
      field ∈ object.fields ∧ field.usesArgument = true ∧
      field.guard.condition.map Expr.render = some "arg == 1" ∧ ¬ImportsArgument object.lines := by
  obtain ⟨model, bindings, -, node, hmodel, hbindings, -, -, -, hnode, hnodeFields⟩ :=
    exists_argumentDocument
  obtain ⟨body, -, -, -, -, -, hsource⟩ := Bindings.exists_of_ofModel hbindings
  obtain ⟨objects, hobjects, -⟩ := bind_eq_ok_iff.mp hsource
  obtain ⟨object, hobject, hown⟩ :=
    NiObject.exists_declaration_of_mem hobjects (hnode ▸ List.mem_singleton_self node)
  obtain ⟨radius, hradius, -, hdeclared⟩ := FieldMap.exists_declaration_of_mem hown
    (hnodeFields ▸ List.mem_cons_self)
  refine ⟨model, bindings, objects, object, radius, hmodel, hbindings, hobjects, hobject, hradius,
    usesArgument_of_argumentType hdeclared, ?_, object.not_importsArgument⟩
  rw [FieldType.condition_of_declaration hdeclared rfl parse_argumentType]
  rfl

end Model

end NifBindings
