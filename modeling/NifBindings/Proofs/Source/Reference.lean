import NifBindings.Bindings
import NifBindings.Proofs.Model.Keeping

/-!
# References to structures

A member names a structure as the schema does, and the type that is kept for it has this name
converted as that of a type. Compounds and objects are declared under names converted in the same
way, but bit flags, enumerations and bit fields under those that the schema has. So a reference to
one of these leads to its declaration exactly if the conversion leaves its name as it is.
-/

namespace NifBindings

/-- Whether a type that is kept for a member refers to a structure, which the member calls `written`
and the type calls `stored`. -/
inductive FieldType.Refers (type : FieldType) (member : Element) (written stored : String) : Prop
  | base (hwritten : member.get? "type" = some written) (hstored : type.base = stored)
  | parameter (hwritten : member.get? "template" = some written)
      (hstored : type.parameter = some stored)

/-- A reference is converted as the name of a type, whatever it refers to. -/
theorem FieldType.IsOf.eq_of_refers {type : FieldType} {member : Element} {written stored : String}
    (h : type.IsOf member) (hrefers : type.Refers member written stored) :
    stored = typeName written := by
  cases hrefers with
  | base hwritten hstored =>
    obtain ⟨base, hbase, htype⟩ := h.base
    cases hbase.symm.trans hwritten
    exact hstored.symm.trans htype
  | parameter hwritten hstored =>
    have hparameter := h.parameter
    rw [hwritten, hstored] at hparameter
    exact Option.some.inj hparameter

/-- The name of a type that is none of the basic ones is converted as that of a structure. -/
theorem typeName_of_not_basic {name : String} (h : name ∉ basicTypes.map Prod.fst) :
    typeName name = structureName name := by
  have hnone : basicTypes.find? (·.1 == name) = none := by
    rw [List.find?_eq_none]
    intro basic hbasic hname
    exact h (List.mem_map.mpr ⟨basic, hbasic, eq_of_beq hname⟩)
  rw [typeName, hnone]

/-- A reference to a structure has the name under which it is kept if it is a compound or an object,
and otherwise exactly if its name is converted to itself. -/
theorem EntryKind.structureName_eq_storedName_iff {kind : EntryKind} {name : String}
    (h : name ∉ basicTypes.map Prod.fst) :
    structureName name = kind.storedName name ↔
      kind = .compound ∨ kind = .object ∨ structureName name = name := by
  cases kind <;> simp [storedName, typeName_of_not_basic h]

namespace Model

/-- Whether a structure that has been read from one of some entries is stored, and keeps a type for
one of its members. -/
def Keeps (profile : Profile) (model : Model) (entries : List Element) (member : Element)
    (type : FieldType) : Prop :=
  ∃ kind entry named members field, entry ∈ entries ∧ profile.declares kind entry = true ∧
    kind.read profile model.beginnings entry = .ok named ∧
    (model.entities kind).get? named.1 = some named.2 ∧ named.2.types.get? field = some type ∧
    profile.emittedMembers entry = .ok members ∧ kind.keptMember? members field = some member

variable {profile : Profile} {document : Document} {model : Model}

/-- A type is of the member that it is kept for. -/
theorem Keeps.isOf {entries : List Element} {member : Element} {type : FieldType}
    (h : model.Keeps profile entries member type) : type.IsOf member := by
  obtain ⟨kind, entry, named, members, field, -, -, hread, -, htype, hmembers, hmember⟩ := h
  obtain ⟨emitted, hemitted, hkept⟩ := EntryKind.exists_keptMember?_of_read hread
  cases hmembers.symm.trans hemitted
  obtain ⟨kept, hmember', hisOf⟩ := hkept htype
  cases hmember.symm.trans hmember'
  exact hisOf

end Model

/-- Whether a line declares a type that stands for a structure of a kind. -/
def EntryKind.Declares (kind : EntryKind) (line name : String) : Prop :=
  match kind with
  | .bitFlags => ∃ storage, line = "    pub struct " ++ name ++ ": " ++ storage ++ " \x7b"
  | .enumeration => line = "pub enum " ++ name ++ " \x7b"
  | .bitField => ∃ storage, line = "pub struct " ++ name ++ "(pub " ++ storage ++ ");"
  | .compound => ∃ parameters ∈ ["", "<T: for<'a> BinRead<Args<'a> = ()> + 'static>"],
      line = "pub struct " ++ name ++ parameters ++ " \x7b"
  | .object => line = "pub struct " ++ name ++ " \x7b"

section Lines

/-- The source of bit flags declares each of them under its name. -/
theorem BitFlags.exists_line_of_mem {all : List BitFlags} {flags : BitFlags} (h : flags ∈ all) :
    ∃ line ∈ source all, EntryKind.bitFlags.Declares line flags.name :=
  ⟨_, List.mem_append_right _ (List.mem_flatMap.mpr ⟨flags, h, by simp [lines]⟩),
    flags.storage, rfl⟩

/-- The source of enumerations declares each of them under its name. -/
theorem Enumeration.exists_line_of_mem {all : List Enumeration} {enumeration : Enumeration}
    (h : enumeration ∈ all) :
    ∃ line ∈ source all, EntryKind.enumeration.Declares line enumeration.name :=
  ⟨_, List.mem_append_right _ (List.mem_flatMap.mpr ⟨enumeration, h, by simp [lines]⟩), rfl⟩

variable {profile : Profile} {model : Model} {source : List String}

/-- The source of bit fields declares each of them under its name. -/
theorem BitField.exists_line_of_mem {bitField : BitField} (h : bitField ∈ model.bitFields.values) :
    ∃ line ∈ BitField.source model, EntryKind.bitField.Declares line bitField.name :=
  ⟨_, List.mem_append_right _ (List.mem_flatMap.mpr ⟨bitField, h, by simp [lines]⟩),
    bitField.storage, rfl⟩

/-- The line that begins a compound is one of its lines, and declares it under its name. -/
theorem CompoundDeclaration.exists_line (compound : CompoundDeclaration) :
    ∃ line ∈ compound.lines, EntryKind.compound.Declares line compound.name := by
  refine ⟨compound.headLine, by simp [lines], ?_⟩
  unfold headLine
  split
  · exact ⟨"<T: for<'a> BinRead<Args<'a> = ()> + 'static>", by simp,
      by simp [← String.toList_inj]⟩
  · exact ⟨"", by simp, by simp⟩

/-- The source of compounds declares each of them under its name, unless it is written by hand. -/
theorem Compound.exists_line_of_mem (hsource : Compound.source profile model = .ok source)
    {compound : Compound} (h : compound ∈ model.compounds.values)
    (hmanual : profile.isManual compound.name = false) :
    ∃ line ∈ source, EntryKind.compound.Declares line compound.name := by
  obtain ⟨declarations, hdeclarations, hlines⟩ := bind_eq_ok_iff.mp hsource
  obtain ⟨declaration, hmem, hdeclaration⟩ := exists_mem_of_mapM hdeclarations
    (List.mem_filter.mpr ⟨h, by rw [hmanual]; rfl⟩)
  have hname : declaration.name = compound.name := by
    obtain ⟨fields, -, hsame⟩ := bind_eq_ok_iff.mp hdeclaration
    cases hsame
    rfl
  obtain ⟨line, hline, hdeclares⟩ := declaration.exists_line
  rw [hname] at hdeclares
  rw [← Except.ok.inj hlines]
  exact ⟨line, List.mem_append_right _ (List.mem_flatMap.mpr ⟨declaration, hmem, hline⟩),
    hdeclares⟩

/-- The source of objects declares each of them under its name. -/
theorem NiObject.exists_line_of_mem (hsource : NiObject.source profile model = .ok source)
    {object : NiObject} (h : object ∈ model.objects.values) :
    ∃ line ∈ source, EntryKind.object.Declares line object.name := by
  obtain ⟨declarations, hdeclarations, hlines⟩ := bind_eq_ok_iff.mp hsource
  obtain ⟨declaration, hmem, hdeclaration⟩ := exists_mem_of_mapM hdeclarations h
  have hname : declaration.name = object.name := by
    obtain ⟨fields, -, hsame⟩ := bind_eq_ok_iff.mp hdeclaration
    cases hsame
    rfl
  rw [← Except.ok.inj hlines, ← hname]
  exact ⟨_, List.mem_append_right _ (List.mem_flatMap.mpr ⟨declaration, hmem,
    by simp [ObjectDeclaration.lines]⟩), rfl⟩

end Lines

namespace Bindings

/-- The source with the structures of a kind. -/
def sourceOf (bindings : Bindings) : EntryKind → String
  | .bitFlags => bindings.bitFlags
  | .enumeration => bindings.enumerations
  | .bitField => bindings.bitFields
  | .compound => bindings.compounds
  | .object => bindings.objects

/-- Whether the source with the structures of a kind declares one under a name. -/
def Declares (bindings : Bindings) (kind : EntryKind) (name : String) : Prop :=
  ∃ lines, bindings.sourceOf kind = joinLines lines ∧ ∃ line ∈ lines, kind.Declares line name

/-- The bindings of a model have the source of the structures of each kind behind a header. -/
theorem exists_of_ofModel {profile : Profile} {model : Model} {bindings : Bindings}
    (h : ofModel profile model = .ok bindings) :
    ∃ body : EntryKind → List String,
      (∀ kind, bindings.sourceOf kind = joinLines (header model.version ++ body kind)) ∧
      body .bitFlags = BitFlags.source model.bitFlags.values ∧
      body .enumeration = Enumeration.source model.enumerations.values ∧
      body .bitField = BitField.source model ∧
      Compound.source profile model = .ok (body .compound) ∧
      NiObject.source profile model = .ok (body .object) := by
  obtain ⟨compounds, hcompounds, h⟩ := bind_eq_ok_iff.mp h
  obtain ⟨objects, hobjects, h⟩ := bind_eq_ok_iff.mp h
  refine ⟨fun
    | .bitFlags => BitFlags.source model.bitFlags.values
    | .enumeration => Enumeration.source model.enumerations.values
    | .bitField => BitField.source model
    | .compound => compounds
    | .object => objects, fun kind => ?_, rfl, rfl, rfl, hcompounds, hobjects⟩
  cases h
  cases kind <;> simp only [sourceOf]

/-- Every structure of a model is declared under the name under which it is stored, unless it is a
compound that is written by hand. -/
theorem declares_of_mem {building generating : Profile} {document : Document} {model : Model}
    {bindings : Bindings} (hmodel : Model.ofDocument building document = .ok model)
    (h : ofModel generating model = .ok bindings) {kind : EntryKind} {named : String × Entity}
    (hmem : named ∈ (model.entities kind).entries)
    (hmanual : kind = .compound → generating.isManual named.1 = false) :
    bindings.Declares kind named.1 := by
  obtain ⟨body, hsources, hflags, henumerations, hbitFields, hcompounds, hobjects⟩ :=
    exists_of_ofModel h
  obtain ⟨entry, -, hread⟩ := Model.exists_entry_of_mem hmodel hmem
  have hline : ∃ line ∈ body kind, kind.Declares line named.1 := by
    cases kind with
    | bitFlags =>
      obtain ⟨flags, -, rfl⟩ := map_eq_ok_iff.mp hread
      have hvalue := OrderedMap.mem_values_of_mem_mapValues (fun _ _ => Entity.bitFlags.inj) hmem
      rw [hflags]
      exact BitFlags.exists_line_of_mem hvalue
    | enumeration =>
      obtain ⟨enumeration, -, rfl⟩ := map_eq_ok_iff.mp hread
      have hvalue := OrderedMap.mem_values_of_mem_mapValues (fun _ _ => Entity.enumeration.inj) hmem
      rw [henumerations]
      exact Enumeration.exists_line_of_mem hvalue
    | bitField =>
      obtain ⟨bitField, -, rfl⟩ := map_eq_ok_iff.mp hread
      have hvalue := OrderedMap.mem_values_of_mem_mapValues (fun _ _ => Entity.bitField.inj) hmem
      rw [hbitFields]
      exact BitField.exists_line_of_mem hvalue
    | compound =>
      obtain ⟨read, -, rfl⟩ := map_eq_ok_iff.mp hread
      have hvalue := OrderedMap.mem_values_of_mem_mapValues (fun _ _ => Entity.compound.inj) hmem
      exact Compound.exists_line_of_mem hcompounds hvalue (hmanual rfl)
    | object =>
      obtain ⟨read, -, rfl⟩ := map_eq_ok_iff.mp hread
      have hvalue := OrderedMap.mem_values_of_mem_mapValues (fun _ _ => Entity.object.inj) hmem
      exact NiObject.exists_line_of_mem hobjects hvalue
  obtain ⟨line, hline, hdeclares⟩ := hline
  exact ⟨_, hsources kind, line, List.mem_append_right _ hline, hdeclares⟩

/-- The root object is declared as the dispatcher, under its own name. -/
theorem exists_dispatcherLine {profile : Profile} {model : Model} {bindings : Bindings}
    (h : ofModel profile model = .ok bindings) :
    ∃ lines, bindings.objects = joinLines lines ∧
      "pub enum " ++ profile.rootObject ++ " \x7b" ∈ lines := by
  obtain ⟨body, hsources, -, -, -, -, hobjects⟩ := exists_of_ofModel h
  obtain ⟨objects, -, hbody⟩ := bind_eq_ok_iff.mp hobjects
  refine ⟨_, hsources .object, List.mem_append_right _ ?_⟩
  rw [← Except.ok.inj hbody]
  refine List.mem_append_left _ (List.mem_append_right _ ?_)
  simp [Dispatcher.lines, Dispatcher.ofModel]

end Bindings

namespace Model

/-- A reference leads to a declaration exactly if its name is converted for both in the same way.
Every type that a model keeps is of an emitted member. Every structure of an emitted entry is stored
and declared under the name of the entry, converted for its kind. Where a member refers to it and
its name is none of a basic type, the reference has the name converted as that of a structure. This
is the name of the declaration for all compounds and objects, and for bit flags, enumerations and
bit fields exactly if the conversion leaves their name as it is. The same holds for the root object,
which stands for the dispatcher and is no structure of a model. -/
theorem reference_eq_storedName_iff {building : Profile} {document : Document} {model : Model}
    (hmodel : ofDocument building document = .ok model) :
    ∃ entries, filterEmitted building.emitsEntry document.entries = .ok entries ∧
      (∀ kind name entity field type, (model.entities kind).get? name = some entity →
        entity.types.get? field = some type →
          ∃ member, model.Keeps building entries member type ∧ type.IsOf member) ∧
      (∀ kind, ∀ entry ∈ entries, building.declares kind entry = true →
        ∃ written entity, entry.get? "name" = some written ∧
          (model.entities kind).get? (kind.storedName written) = some entity ∧
          (∃ other ∈ entries, building.declares kind other = true ∧
            kind.read building model.beginnings other = .ok (kind.storedName written, entity)) ∧
          (∀ generating bindings, Bindings.ofModel generating model = .ok bindings →
            (kind = .compound → generating.isManual (kind.storedName written) = false) →
              bindings.Declares kind (kind.storedName written)) ∧
          (written ∉ basicTypes.map Prod.fst → ∀ member type reference,
            model.Keeps building entries member type → type.Refers member written reference →
              reference = structureName written ∧
                (reference = kind.storedName written ↔
                  kind = .compound ∨ kind = .object ∨ structureName written = written))) ∧
      (∀ generating bindings, Bindings.ofModel generating model = .ok bindings →
        ∃ lines, bindings.objects = joinLines lines ∧
          "pub enum " ++ generating.rootObject ++ " \x7b" ∈ lines) ∧
      (building.rootObject ∉ basicTypes.map Prod.fst → ∀ member type reference,
        model.Keeps building entries member type →
          type.Refers member building.rootObject reference →
            (reference = building.rootObject ↔
              structureName building.rootObject = building.rootObject)) := by
  obtain ⟨entries, hentries, hkinds⟩ := exists_declared hmodel
  have hread {kind : EntryKind} {name : String} {entity : Entity}
      (hget : (model.entities kind).get? name = some entity) :
      ∃ entry ∈ entries, building.declares kind entry = true ∧
        kind.read building model.beginnings entry = .ok (name, entity) := by
    obtain ⟨declared, hdeclared, hstored⟩ := hkinds kind
    rw [hstored, OrderedMap.get?_eq_some_iff] at hget
    obtain ⟨entry, hentry, hread⟩ :=
      exists_of_mem_mapM hdeclared (OrderedMap.mem_of_mem_ofList hget)
    obtain ⟨hentry, hdeclares⟩ := List.mem_filter.mp hentry
    exact ⟨entry, hentry, hdeclares, hread⟩
  have hreference {member : Element} {type : FieldType} {written reference : String}
      (hbasic : written ∉ basicTypes.map Prod.fst)
      (hkeeps : model.Keeps building entries member type)
      (hrefers : type.Refers member written reference) : reference = structureName written :=
    (hkeeps.isOf.eq_of_refers hrefers).trans (typeName_of_not_basic hbasic)
  refine ⟨entries, hentries, ?_, ?_, fun _ _ => Bindings.exists_dispatcherLine, ?_⟩
  · intro kind name entity field type hget htype
    obtain ⟨entry, hentry, hdeclares, hread⟩ := hread hget
    obtain ⟨members, hmembers, hkept⟩ := EntryKind.exists_keptMember?_of_read hread
    obtain ⟨member, hmember, hisOf⟩ := hkept htype
    exact ⟨member, ⟨kind, entry, (name, entity), members, field, hentry, hdeclares, hread, hget,
      htype, hmembers, hmember⟩, hisOf⟩
  · intro kind entry hentry hdeclares
    obtain ⟨declared, hdeclared, hstored⟩ := hkinds kind
    obtain ⟨⟨name, own⟩, hown, hreadOwn⟩ :=
      exists_mem_of_mapM hdeclared (List.mem_filter.mpr ⟨hentry, hdeclares⟩)
    obtain ⟨written, hwritten, rfl⟩ := EntryKind.name_of_read hreadOwn
    obtain ⟨entity, hget, -⟩ := OrderedMap.exists_get?_ofList hown
    rw [← hstored] at hget
    refine ⟨written, entity, hwritten, hget, hread hget, fun generating bindings hbindings => ?_,
      fun hbasic member type reference hkeeps hrefers => ?_⟩
    · exact Bindings.declares_of_mem hmodel hbindings (OrderedMap.get?_eq_some_iff.mp hget)
    · rw [hreference hbasic hkeeps hrefers]
      exact ⟨rfl, EntryKind.structureName_eq_storedName_iff hbasic⟩
  · intro hbasic member type reference hkeeps hrefers
    rw [hreference hbasic hkeeps hrefers]

/-- An enumeration without options. -/
def blendElement (name : String) : Element where
  tag := "enum"
  attributes := .ofList [("name", name), ("storage", "uint")]
  text := ""
  children := []

/-- A value in a bit field. -/
def sourceElement (type : String) : Element where
  tag := "member"
  attributes := .ofList [("name", "Source"), ("type", type), ("pos", "1"), ("mask", "0x1E")]
  text := ""
  children := []

/-- A bit field with one value. -/
def flagsElement (type : String) : Element where
  tag := "bitfield"
  attributes := .ofList [("name", "BlendFlags"), ("storage", "ushort")]
  text := ""
  children := [sourceElement type]

/-- A document with an enumeration, and a bit field that refers to it. -/
def blendDocument (name : String) : Document :=
  ⟨none, [blendElement name, flagsElement name]⟩

/-- An enumeration whose name begins with a capital is found by a reference to it. -/
theorem reference_eq_storedName_iff_alphaFunction :
    ∃ model bitField layout, ofDocument .default (blendDocument "AlphaFunction") = .ok model ∧
      model.bitFields.get? "BlendFlags" = some bitField ∧
      bitField.members.get? "source" = some layout ∧ layout.type.base = "AlphaFunction" ∧
      (model.entities .enumeration).contains layout.type.base = true := by
  let name := "AlphaFunction"
  have hview : (ofDocument .default (blendDocument name)).toOption.map (fun model =>
      (model.bitFields.get? "BlendFlags").map fun bitField =>
        (bitField.members.get? "source").isSome) = some (some true) := by
    decide +kernel
  have hemitted : filterEmitted Profile.default.emitsEntry (blendDocument name).entries =
      .ok (blendDocument name).entries :=
    filterEmitted_eq_self (by decide +kernel)
  cases hmodel : ofDocument .default (blendDocument name) with
  | error error =>
    rw [hmodel] at hview
    cases hview
  | ok model =>
    simp only [hmodel, Except.toOption, Option.map_some, Option.some.injEq, Option.map_eq_some_iff,
      Option.isSome_iff_exists] at hview
    obtain ⟨bitField, hbitField, layout, hlayout⟩ := hview
    obtain ⟨entries, hentries, hkept, hdeclared, -⟩ := reference_eq_storedName_iff hmodel
    rw [hemitted] at hentries
    cases hentries
    have hentity : (model.entities .bitField).get? "BlendFlags" = some (.bitField bitField) := by
      rw [entities, Structures.entities, OrderedMap.get?_mapValues, hbitField]
      rfl
    obtain ⟨member, hkeeps, hisOf⟩ := hkept .bitField "BlendFlags" (.bitField bitField) "source"
      layout.type hentity (by rw [Entity.types, OrderedMap.get?_mapValues, hlayout]; rfl)
    obtain ⟨written, entity, hwritten, hstored, -, -, hreferences⟩ :=
      hdeclared .enumeration (blendElement name) List.mem_cons_self (by decide +kernel)
    cases hwritten
    have hsource : member = sourceElement name := by
      obtain ⟨kind, entry, named, members, field, hentry, -, -, -, -, hmembers, hmember⟩ := hkeeps
      have hmem := EntryKind.mem_of_keptMember? hmember
      have hemits : Profile.default.emitsMember (sourceElement name).attributes = .ok true := by
        decide +kernel
      rcases List.mem_pair.mp hentry with rfl | rfl
      · cases hmembers
        cases hmem
      · cases (filterEmitted_singleton hemits).symm.trans hmembers
        exact List.mem_singleton.mp hmem
    have hreference := hreferences (by decide) member layout.type layout.type.base hkeeps
      (.base (by rw [hsource]; decide +kernel) rfl)
    have hbase : layout.type.base = name := hreference.2.mpr (.inr (.inr (by decide +kernel)))
    refine ⟨model, bitField, layout, rfl, hbitField, hlayout, hbase, ?_⟩
    rw [OrderedMap.contains, hbase]
    exact Option.isSome_of_eq_some hstored

/-- An enumeration whose name begins with a small letter is not found by a reference to it, so that
an accessor takes its values for those of another type. -/
theorem reference_ne_storedName_alphaFunction :
    ∃ model bitField layout, ofDocument .default (blendDocument "alphaFunction") = .ok model ∧
      Profile.default.emitsEntry (blendElement "alphaFunction").attributes = .ok true ∧
      "alphaFunction" ∉ basicTypes.map Prod.fst ∧
      model.enumerations.keys = ["alphaFunction"] ∧
      model.bitFields.get? "BlendFlags" = some bitField ∧
      bitField.members.get? "source" = some layout ∧
      (sourceElement "alphaFunction").get? "type" = some "alphaFunction" ∧
      layout.type.base = "AlphaFunction" ∧ model.enumerations.get? layout.type.base = none ∧
      layout.accessor model bitField.storage = .converted := by
  have hview : (ofDocument .default (blendDocument "alphaFunction")).toOption.map (fun model =>
      (model.enumerations.keys, (model.bitFields.get? "BlendFlags").map fun bitField =>
        (bitField.members.get? "source").map fun layout =>
          (layout.type.base, (model.enumerations.get? layout.type.base).isSome,
            layout.accessor model bitField.storage))) =
      some (["alphaFunction"], some (some ("AlphaFunction", false, .converted))) := by
    decide +kernel
  cases hmodel : ofDocument .default (blendDocument "alphaFunction") with
  | error error =>
    rw [hmodel] at hview
    cases hview
  | ok model =>
    simp only [hmodel, Except.toOption, Option.map_some, Option.some.injEq, Prod.mk.injEq,
      Option.map_eq_some_iff] at hview
    obtain ⟨hkeys, bitField, hbitField, layout, hlayout, hbase, hnone, haccessor⟩ := hview
    rw [Option.isSome_eq_false_iff, Option.isNone_iff_eq_none] at hnone
    exact ⟨model, bitField, layout, rfl, by decide +kernel, by decide, hkeys, hbitField, hlayout,
      by decide +kernel, hbase, hnone, haccessor⟩

end Model

end NifBindings
