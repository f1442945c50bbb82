import NifBindings.Proofs.Source.Annotation
import NifBindings.Proofs.Source.Argument
import NifBindings.Proofs.Source.Lineage

/-!
# Names in scope

The fields of a structure have distinct names, because a name that is declared again gets no second
field. But names that no entry declares stand beside them: that of the parent, which an object holds
in front of its fields, and those of the parameters that a reader imports. Nothing keeps the fields
apart from these, so that names clash exactly if one of them is the converted name of a member.
-/

namespace NifBindings

/-- A parameter of a reader. -/
structure Parameter where
  name : String
  type : String
deriving DecidableEq, Repr

namespace Parameter

/-- The argument that a compound may be given. -/
def argument : Parameter :=
  ⟨"arg", "usize"⟩

/-- The version in the header of the file. -/
def version : Parameter :=
  ⟨"_header_version", "FileVersion"⟩

/-- A parameter with its type. -/
def text (parameter : Parameter) : String :=
  parameter.name ++ ": " ++ parameter.type

/-- The line that imports some parameters. -/
def importLine (parameters : List Parameter) : String :=
  "#[br(import(" ++ ", ".intercalate (parameters.map text) ++ "))]"

end Parameter

/-- The names of a generated structure. -/
structure Scope where
  /-- Whether it is a compound or an object. -/
  kind : EntryKind
  name : String
  /-- The lines that it is written in. -/
  lines : List String
  /-- The names in front of those of its own fields. -/
  held : List String
  /-- The names of its own fields. -/
  fields : List String
  /-- The parameters that its reader imports. -/
  parameters : List Parameter

/-- The names of a compound, which holds its fields alone. -/
def CompoundDeclaration.scope (compound : CompoundDeclaration) : Scope where
  kind := .compound
  name := compound.name
  lines := compound.lines
  held := []
  fields := compound.fields.map FieldDeclaration.name
  parameters := if compound.takesArgument then [.argument, .version] else [.version]

/-- The names of an object, which holds its parent in front of its fields. -/
def ObjectDeclaration.scope (object : ObjectDeclaration) : Scope where
  kind := .object
  name := object.name
  lines := object.lines
  held := (object.base?.map fun _ => "base").toList
  fields := object.fields.map FieldDeclaration.name
  parameters := [.version]

namespace Scope

/-- All names that a structure declares. -/
def names (scope : Scope) : List String :=
  scope.held ++ scope.fields

/-- The names beside those of the fields. -/
def reserved (scope : Scope) : List String :=
  scope.held ++ scope.parameters.map Parameter.name

/-- Whether the lines of a structure declare its names and import its parameters, and no others. -/
structure IsWritten (scope : Scope) : Prop where
  names : List.Forall₂ (fun line name => ∃ type, line = "    pub " ++ name ++ ": " ++ type ++ ",")
    (FieldLine.declaration.among scope.lines) scope.names
  parameters : importLines scope.lines = [Parameter.importLine scope.parameters]

/-- Whether no name is declared twice, and none of them is that of a parameter. -/
def IsApart (scope : Scope) : Prop :=
  scope.names.Nodup ∧ ∀ parameter ∈ scope.parameters, parameter.name ∉ scope.names

instance (scope : Scope) : Decidable scope.IsApart :=
  inferInstanceAs (Decidable (_ ∧ _))

/-- Where neither the fields nor the names beside them clash with one another, no names clash
exactly if no field has one of the names beside it. -/
theorem isApart_iff {scope : Scope} (hfields : scope.fields.Nodup)
    (hreserved : scope.reserved.Nodup) :
    scope.IsApart ↔ ∀ name ∈ scope.fields, name ∉ scope.reserved := by
  unfold reserved at hreserved
  obtain ⟨hheld, -, hparameters⟩ := List.nodup_append.mp hreserved
  unfold IsApart names reserved
  simp only [List.nodup_append, List.mem_append, List.mem_map, not_or]
  constructor
  · rintro ⟨⟨-, -, hnames⟩, himports⟩ name hname
    refine ⟨fun hmem => hnames name hmem name hname rfl, ?_⟩
    rintro ⟨parameter, hparameter, rfl⟩
    exact (himports parameter hparameter).2 hname
  · intro hfree
    refine ⟨⟨hheld, hfields, ?_⟩, fun parameter hparameter => ⟨?_, ?_⟩⟩
    · rintro a ha b hb rfl
      exact (hfree a hb).1 ha
    · intro hmem
      exact hparameters _ hmem _ (List.mem_map_of_mem hparameter) rfl
    · intro hmem
      exact (hfree _ hmem).2 ⟨parameter, hparameter, rfl⟩

end Scope

section Writing

/-- Lines that are not indented are none of a field. -/
theorem FieldLine.among_eq_nil {lines : List String} (kind : FieldLine)
    (h : ∀ line ∈ lines, line.toList.head? ≠ some ' ') : kind.among lines = [] := by
  rw [among, List.filter_eq_nil_iff]
  intro line hline hbegins
  rw [Text.beginsWith, List.isPrefixOf_iff_prefix] at hbegins
  obtain ⟨rest, hrest⟩ := hbegins
  refine h line hline ?_
  rw [← hrest]
  cases kind <;> rfl

/-- Each of some fields is declared in one line. -/
theorem among_declaration_fields (fields : List FieldDeclaration) :
    FieldLine.declaration.among (fields.flatMap FieldDeclaration.lines) =
      fields.map FieldDeclaration.declarationLine := by
  rw [FieldLine.among, List.filter_flatMap, List.map_eq_flatMap]
  exact List.flatMap_congr fun field _ => field.among_lines .declaration

/-- The lines that declare fields have their names. -/
theorem forall₂_declarationLine (fields : List FieldDeclaration) :
    List.Forall₂ (fun line name => ∃ type, line = "    pub " ++ name ++ ": " ++ type ++ ",")
      (fields.map FieldDeclaration.declarationLine) (fields.map FieldDeclaration.name) := by
  rw [List.forall₂_map_left_iff, List.forall₂_map_right_iff, List.forall₂_same]
  exact fun field _ => ⟨field.typeText, rfl⟩

/-- No line in front of what a structure declares is indented. -/
theorem head?_ne_of_mem_front (doc : List String) {imports head : String}
    (hhead : head.toList.head? = some 'p') (himports : imports.toList.head? = some '#') :
    ∀ line ∈ docComment "" doc ++
      ["#[binread]", "#[derive(Clone, Debug, PartialEq)]", imports, head],
      line.toList.head? ≠ some ' ' := by
  refine List.forall_mem_append.mpr ⟨fun line hline => ?_, by simp [hhead, himports]⟩
  rw [head?_of_mem_docComment hline]
  decide

/-- The import line of a compound is not indented. -/
theorem CompoundDeclaration.head?_importLine (takesArgument : Bool) :
    (importLine takesArgument).toList.head? = some '#' := by
  cases takesArgument <;> rfl

/-- The line that holds the parent of an object declares a field. -/
theorem ObjectDeclaration.baseLine_eq (parent : String) :
    "    pub base: " ++ parent ++ "," = "    pub " ++ "base" ++ ": " ++ parent ++ "," := by
  have hline : "    pub base: " = "    pub " ++ "base" ++ ": " := by decide
  rw [hline]

/-- The line that holds the parent of an object begins as those of fields do. -/
theorem ObjectDeclaration.beginsWith_baseLine (parent : String) :
    Text.beginsWith ("    pub base: " ++ parent ++ ",") "    pub " = true := by
  rw [baseLine_eq]
  simp only [String.append_assoc]
  exact Text.beginsWith_append _ _

/-- Between the documentation and the last brace, a structure declares what it holds and its
fields. -/
theorem among_declaration_structure {doc base : List String} {imports head : String}
    {fields : List FieldDeclaration} (hhead : head.toList.head? = some 'p')
    (himports : imports.toList.head? = some '#') :
    FieldLine.declaration.among (docComment "" doc ++
        ["#[binread]", "#[derive(Clone, Debug, PartialEq)]", imports, head] ++
        base ++ fields.flatMap FieldDeclaration.lines ++ ["\x7d", ""]) =
      FieldLine.declaration.among base ++ fields.map FieldDeclaration.declarationLine := by
  have hfront : FieldLine.declaration.among (docComment "" doc ++
      ["#[binread]", "#[derive(Clone, Debug, PartialEq)]", imports, head]) = [] :=
    FieldLine.among_eq_nil _ (head?_ne_of_mem_front doc hhead himports)
  have hend : FieldLine.declaration.among ["\x7d", ""] = [] :=
    FieldLine.among_eq_nil _ (by simp)
  rw [FieldLine.among_append, FieldLine.among_append, FieldLine.among_append, hfront, hend,
    among_declaration_fields, List.nil_append, List.append_nil]

/-- A compound is written with its names. -/
theorem CompoundDeclaration.isWritten_scope (compound : CompoundDeclaration) :
    compound.scope.IsWritten where
  names := by
    have hnothing : FieldLine.declaration.among [] = [] := rfl
    have hlines := @among_declaration_structure compound.doc [] _ _ compound.fields
      compound.head?_headLine (head?_importLine compound.takesArgument)
    rw [hnothing, List.nil_append, List.append_nil] at hlines
    exact hlines ▸ forall₂_declarationLine compound.fields
  parameters := by
    have himport : importLine compound.takesArgument =
        Parameter.importLine (if compound.takesArgument then [.argument, .version]
          else [.version]) := by
      cases compound.takesArgument <;> decide
    exact compound.importLines_lines.trans (congrArg (fun line => [line]) himport)

/-- An object is written with its names. -/
theorem ObjectDeclaration.isWritten_scope (object : ObjectDeclaration) :
    object.scope.IsWritten where
  names := by
    have hbase : List.Forall₂
        (fun line name => ∃ type, line = "    pub " ++ name ++ ": " ++ type ++ ",")
        (FieldLine.declaration.among ((object.base?.map baseLines).getD [])) object.scope.held := by
      unfold scope
      cases object.base? with
      | none => exact .nil
      | some parent =>
        have hdeclares : FieldLine.declaration.among (baseLines parent) =
            ["    pub base: " ++ parent ++ ","] := by
          have harguments :
              Text.beginsWith "    #[br(args(_header_version,))]" "    pub " = false := by
            decide
          simp [FieldLine.among, FieldLine.opening, baseLines, harguments,
            beginsWith_baseLine parent]
        simp only [Option.map_some, Option.getD_some, hdeclares]
        exact .cons ⟨parent, baseLine_eq parent⟩ .nil
    have hlines := @among_declaration_structure object.doc ((object.base?.map baseLines).getD [])
      "#[br(import(_header_version: FileVersion))]" ("pub struct " ++ object.name ++ " \x7b")
      object.fields (by simp) (by simp)
    exact hlines ▸ List.rel_append hbase (forall₂_declarationLine object.fields)
  parameters := by
    have himport : CompoundDeclaration.importLine false = Parameter.importLine [.version] := by
      decide
    exact object.importLines_lines.trans (congrArg (fun line => [line]) himport)

end Writing

/-- The names beside the fields of a compound do not clash with one another. -/
theorem CompoundDeclaration.nodup_reserved_scope (compound : CompoundDeclaration) :
    compound.scope.reserved.Nodup := by
  have hparameters (takes : Bool) : ((if takes then [Parameter.argument, .version]
      else [.version]).map Parameter.name).Nodup := by
    revert takes
    decide
  exact hparameters compound.takesArgument

/-- The names beside the fields of an object do not clash with one another. -/
theorem ObjectDeclaration.nodup_reserved_scope (object : ObjectDeclaration) :
    object.scope.reserved.Nodup := by
  unfold scope Scope.reserved
  cases object.base? with
  | none => exact List.nodup_singleton _
  | some parent => exact (by decide : ["base", "_header_version"].Nodup)

/-- The names of the fields of an entry are the converted names of its emitted members. -/
theorem mem_keys_iff_of_readFields {profile : Profile} {owner : String} {entry : Element}
    {fields : FieldMap} {findings : List Diagnostic}
    (h : readFields profile owner entry = .ok (fields, findings)) :
    ∃ members, profile.emittedMembers entry = .ok members ∧ ∀ name, name ∈ fields.keys ↔
      ∃ member ∈ members, (member.get? "name").map fieldName = some name := by
  obtain ⟨declarations, hdeclared, rfl, -⟩ := readFields_eq_ok_iff.mp h
  obtain ⟨members, hmembers, hdeclarations⟩ := bind_eq_ok_iff.mp hdeclared
  refine ⟨members, hmembers, fun name => ?_⟩
  rw [FieldMap.keys_ofDeclarations, List.mem_eraseDups, List.mem_map]
  constructor
  · rintro ⟨declaration, hmem, rfl⟩
    obtain ⟨member, hmember, hread⟩ := exists_of_mem_mapM hdeclarations hmem
    exact ⟨member, hmember, (isOf_of_declaredField hread).1⟩
  · rintro ⟨member, hmember, hname⟩
    obtain ⟨declaration, hmem, hread⟩ := exists_mem_of_mapM hdeclarations hmember
    exact ⟨declaration, hmem, Option.some.inj ((isOf_of_declaredField hread).1.symm.trans hname)⟩

/-- Whether structures of a kind declare fields. -/
def EntryKind.HasFields (kind : EntryKind) : Prop :=
  kind = .compound ∨ kind = .object

/-- The fields of a compound or object have the converted names of the emitted members. -/
theorem EntryKind.HasFields.mem_keys_iff {profile : Profile}
    {beginnings : OrderedMap String String} {kind : EntryKind} (hkind : kind.HasFields)
    {entry : Element} {name : String} {entity : Entity}
    (h : kind.read profile beginnings entry = .ok (name, entity)) :
    ∃ members, profile.emittedMembers entry = .ok members ∧ ∀ field, field ∈ entity.types.keys ↔
      ∃ member ∈ members, (member.get? "name").map fieldName = some field := by
  rcases hkind with rfl | rfl
  · obtain ⟨⟨compound, findings⟩, hread, hsame⟩ := map_eq_ok_iff.mp h
    cases hsame
    exact mem_keys_iff_of_readFields (Compound.exists_of_ofElement hread).2
  · obtain ⟨⟨object, findings⟩, hread, hsame⟩ := map_eq_ok_iff.mp h
    cases hsame
    exact mem_keys_iff_of_readFields (NiObject.exists_of_ofElement hread).2.2

namespace Model

variable {building generating : Profile} {document : Document} {model : Model}

/-- The names of the structures that are generated for some declarations. -/
def scopes (compounds : List CompoundDeclaration) (objects : List ObjectDeclaration) :
    List Scope :=
  compounds.map CompoundDeclaration.scope ++ objects.map ObjectDeclaration.scope

/-- Every generated structure is written with its names, and those beside the fields do not clash
with one another. -/
theorem isWritten_of_mem_scopes {compounds : List CompoundDeclaration}
    {objects : List ObjectDeclaration} {scope : Scope} (h : scope ∈ scopes compounds objects) :
    scope.IsWritten ∧ scope.reserved.Nodup := by
  rcases List.mem_append.mp h with h | h
  · obtain ⟨compound, -, rfl⟩ := List.mem_map.mp h
    exact ⟨compound.isWritten_scope, compound.nodup_reserved_scope⟩
  · obtain ⟨object, -, rfl⟩ := List.mem_map.mp h
    exact ⟨object.isWritten_scope, object.nodup_reserved_scope⟩

/-- A generated structure is made of a stored one, with its fields. -/
theorem exists_entity_of_mem_scopes (hmodel : ofDocument building document = .ok model)
    {compounds : List CompoundDeclaration} {objects : List ObjectDeclaration}
    (hcompounds : Compound.declarations generating model = .ok compounds)
    (hobjects : NiObject.declarations generating model = .ok objects) {scope : Scope}
    (hmem : scope ∈ scopes compounds objects) :
    ∃ entity, (scope.name, entity) ∈ (model.entities scope.kind).entries ∧
      scope.fields = entity.types.keys ∧ scope.kind.HasFields := by
  rcases List.mem_append.mp hmem with hmem | hmem
  · obtain ⟨compound, hcompound, rfl⟩ := List.mem_map.mp hmem
    obtain ⟨described, hstored, -, hfields⟩ :=
      exists_of_mem_declarations hmodel hcompounds hcompound
    refine ⟨.compound described, ?_, FieldMap.map_name_of_declarations hfields, .inl rfl⟩
    exact List.mem_map.mpr ⟨_, OrderedMap.get?_eq_some_iff.mp hstored, rfl⟩
  · obtain ⟨object, hobject, rfl⟩ := List.mem_map.mp hmem
    obtain ⟨described, hdescribed, hdeclaration⟩ := exists_of_mem_mapM hobjects hobject
    obtain ⟨fields, hfields, hsame⟩ := bind_eq_ok_iff.mp hdeclaration
    cases hsame
    obtain ⟨⟨name, described⟩, hstored, rfl⟩ := List.mem_map.mp hdescribed
    obtain rfl := name_of_mem_objects hmodel hstored
    refine ⟨.object described, ?_, FieldMap.map_name_of_declarations hfields, .inr rfl⟩
    exact List.mem_map.mpr ⟨_, hstored, rfl⟩

/-- Names inside a generated structure clash exactly if the converted name of a member is one of
those beside the fields. Every generated compound and object declares these names and its fields,
imports its parameters, and is read from an emitted entry. Its names are apart from one another and
from those of its parameters exactly if no emitted member of the entry has a name that is converted
to that of the parent, where there is one, or of a parameter. -/
theorem names_isApart_iff {bindings : Bindings} (hmodel : ofDocument building document = .ok model)
    (hbindings : Bindings.ofModel generating model = .ok bindings) :
    ∃ entries compounds objects,
      filterEmitted building.emitsEntry document.entries = .ok entries ∧
      Compound.declarations generating model = .ok compounds ∧
      NiObject.declarations generating model = .ok objects ∧
      bindings.compounds = joinLines (Bindings.header model.version ++
        (Compound.preamble generating ++ compounds.flatMap CompoundDeclaration.lines)) ∧
      bindings.objects = joinLines (Bindings.header model.version ++
        (NiObject.preamble ++ (Dispatcher.ofModel generating model).lines ++
          objects.flatMap ObjectDeclaration.lines)) ∧
      ∀ scope ∈ scopes compounds objects, scope.IsWritten ∧ ∃ entry ∈ entries, ∃ entity members,
        scope.kind.read building model.beginnings entry = .ok (scope.name, entity) ∧
        building.emittedMembers entry = .ok members ∧
        (scope.IsApart ↔ ∀ member ∈ members, ∀ written, member.get? "name" = some written →
          fieldName written ∉ scope.reserved) := by
  obtain ⟨entries, hentries, hkinds⟩ := exists_declared hmodel
  obtain ⟨compounds, objects, hcompounds, hobjects, hcompoundText, hobjectText⟩ :=
    Bindings.exists_declarations_of_ofModel hbindings
  refine ⟨entries, compounds, objects, hentries, hcompounds, hobjects, hcompoundText, hobjectText,
    fun scope hscope => ?_⟩
  obtain ⟨hwritten, hreserved⟩ := isWritten_of_mem_scopes hscope
  obtain ⟨entity, hentity, hfields, hkind⟩ :=
    exists_entity_of_mem_scopes hmodel hcompounds hobjects hscope
  obtain ⟨declared, hdeclared, hstored⟩ := hkinds scope.kind
  obtain ⟨entry, hentry, -, hread⟩ := exists_emitted_of_mem hdeclared hstored hentity
  obtain ⟨members, hmembers, hnames⟩ := hkind.mem_keys_iff hread
  refine ⟨hwritten, entry, hentry, entity, members, hread, hmembers, ?_⟩
  -- The map of the fields keeps their names apart, so that only those beside them are left.
  rw [Scope.isApart_iff (hfields ▸ entity.types.keys_nodup) hreserved, hfields]
  constructor
  · intro hfree member hmember written hwritten
    exact hfree _ ((hnames _).mpr ⟨member, hmember, by rw [hwritten, Option.map_some]⟩)
  · intro hfree name hname
    obtain ⟨member, hmember, hsame⟩ := (hnames name).mp hname
    obtain ⟨written, hwritten, rfl⟩ := Option.map_eq_some_iff.mp hsame
    exact hfree member hmember written hwritten

/-- Two objects, the second of which inherits from the first and has one field. -/
def derivedDocument (field : String) : Document :=
  ⟨none, [Dispatcher.blockElement "NiAVObject",
    ⟨"niobject", .ofList [("name", "NiNode"), ("inherit", "NiAVObject")], "",
      [fieldElement [("name", field)]]⟩]⟩

/-- The names of the structures that the default profile generates for a document. -/
def scopes? (document : Document) : Option (List Scope) := do
  let model ← (ofDocument .default document).toOption
  let _ ← (Bindings.ofModel .default model).toOption
  let compounds ← (Compound.declarations .default model).toOption
  let objects ← (NiObject.declarations .default model).toOption
  return scopes compounds objects

/-- The names of generated structures are those of the declarations of a model with bindings. -/
theorem exists_of_scopes? {document : Document} {all : List Scope}
    (h : scopes? document = some all) :
    ∃ model bindings compounds objects, ofDocument .default document = .ok model ∧
      Bindings.ofModel .default model = .ok bindings ∧
      Compound.declarations .default model = .ok compounds ∧
      NiObject.declarations .default model = .ok objects ∧ scopes compounds objects = all := by
  obtain ⟨model, hmodel, h⟩ := Option.bind_eq_some_iff.mp h
  obtain ⟨bindings, hbindings, h⟩ := Option.bind_eq_some_iff.mp h
  obtain ⟨compounds, hcompounds, h⟩ := Option.bind_eq_some_iff.mp h
  obtain ⟨objects, hobjects, h⟩ := Option.bind_eq_some_iff.mp h
  rw [toOption_eq_some_iff] at hmodel hbindings hcompounds hobjects
  exact ⟨model, bindings, compounds, objects, hmodel, hbindings, hcompounds, hobjects,
    Option.some.inj h⟩

/-- A field whose name is neither that of the parent nor that of the version clashes with
nothing. -/
theorem names_isApart_iff_flags :
    ∃ model bindings compounds objects scope,
      ofDocument .default (derivedDocument "Flags") = .ok model ∧
      Bindings.ofModel .default model = .ok bindings ∧
      Compound.declarations .default model = .ok compounds ∧
      NiObject.declarations .default model = .ok objects ∧ scope ∈ scopes compounds objects ∧
      scope.IsWritten ∧ scope.names = ["base", "flags"] ∧ scope.IsApart := by
  have hview : (scopes? (derivedDocument "Flags")).map (List.map fun scope =>
      (scope.names, scope.reserved)) =
        some [([], ["_header_version"]), (["base", "flags"], ["base", "_header_version"])] := by
    decide +kernel
  have hemitted : filterEmitted Profile.default.emitsEntry (derivedDocument "Flags").entries =
      .ok (derivedDocument "Flags").entries :=
    filterEmitted_eq_self (by decide +kernel)
  have hchildren : ∀ entry ∈ (derivedDocument "Flags").entries, ∀ member ∈ entry.children,
      Profile.default.emitsMember member.attributes = .ok true ∧
        ∀ written ∈ member.get? "name", fieldName written ∉ ["base", "_header_version"] := by
    decide +kernel
  obtain ⟨all, hall, hview⟩ := Option.map_eq_some_iff.mp hview
  obtain ⟨model, bindings, compounds, objects, hmodel, hbindings, hcompounds, hobjects, rfl⟩ :=
    exists_of_scopes? hall
  obtain ⟨scope, hscope, hsame⟩ := List.mem_map.mp (hview ▸ List.mem_cons_of_mem _
    List.mem_cons_self : (["base", "flags"], ["base", "_header_version"]) ∈ _)
  obtain ⟨hnames, hreserved⟩ := Prod.mk.inj hsame
  obtain ⟨entries, compounds', objects', hentries, hcompounds', hobjects', -, -, hscopes⟩ :=
    names_isApart_iff hmodel hbindings
  cases hemitted.symm.trans hentries
  cases hcompounds.symm.trans hcompounds'
  cases hobjects.symm.trans hobjects'
  obtain ⟨hwritten, entry, hentry, entity, members, -, hmembers, hapart⟩ := hscopes scope hscope
  have hkept : Profile.default.emittedMembers entry = .ok entry.children :=
    filterEmitted_eq_self fun member hmember => (hchildren entry hentry member hmember).1
  cases hkept.symm.trans hmembers
  refine ⟨model, bindings, compounds, objects, scope, hmodel, hbindings, hcompounds, hobjects,
    hscope, hwritten, hnames, hapart.mpr fun member hmember written hname => ?_⟩
  rw [hreserved]
  exact (hchildren entry hentry member hmember).2 written hname

/-- A field whose name is converted to that of the parent is declared beside the parent, under the
same name. -/
theorem not_isApart_base :
    ∃ model bindings compounds objects scope,
      ofDocument .default (derivedDocument "Base") = .ok model ∧
      Bindings.ofModel .default model = .ok bindings ∧
      Compound.declarations .default model = .ok compounds ∧
      NiObject.declarations .default model = .ok objects ∧ scope ∈ scopes compounds objects ∧
      FieldLine.declaration.among scope.lines =
        ["    pub base: NiAVObject,", "    pub base: f32,"] ∧
      scope.names = ["base", "base"] ∧ ¬scope.IsApart := by
  have hview : (scopes? (derivedDocument "Base")).map (List.map fun scope =>
      (FieldLine.declaration.among scope.lines, scope.names)) =
        some [([], []),
          (["    pub base: NiAVObject,", "    pub base: f32,"], ["base", "base"])] := by
    decide +kernel
  obtain ⟨all, hall, hview⟩ := Option.map_eq_some_iff.mp hview
  obtain ⟨model, bindings, compounds, objects, hmodel, hbindings, hcompounds, hobjects, rfl⟩ :=
    exists_of_scopes? hall
  obtain ⟨scope, hscope, hsame⟩ := List.mem_map.mp (hview ▸ List.mem_cons_of_mem _
    List.mem_cons_self :
      (["    pub base: NiAVObject,", "    pub base: f32,"], ["base", "base"]) ∈ _)
  obtain ⟨hlines, hnames⟩ := Prod.mk.inj hsame
  refine ⟨model, bindings, compounds, objects, scope, hmodel, hbindings, hcompounds, hobjects,
    hscope, hlines, hnames, fun hapart => ?_⟩
  have hnodup := hapart.1
  rw [hnames] at hnodup
  exact absurd hnodup (by decide)

end Model

end NifBindings
