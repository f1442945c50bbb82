import NifBindings.Proofs.Model.Reading
import NifBindings.Proofs.Split

/-!
# Models without documentation

A document holds three things for the documentation alone: its version, the text of its entries, and
the defaults of the values in bit fields. Nothing else in a model depends on them, so that the model
of a document without them is its model without them. What is kept of the text of an entry is split
into lines.
-/

namespace NifBindings

/-- An element without a default. -/
def Element.withoutDefault (member : Element) : Element :=
  { member with attributes := member.attributes.without "default" }

/-- An entry without its text, and without the defaults in it if it is a bit field. -/
def Element.bare (entry : Element) : Element :=
  { entry with
    text := ""
    children := if entry.tag = "bitfield" then entry.children.map Element.withoutDefault
      else entry.children }

/-- A document without its version, the texts of its entries and the defaults in bit fields. -/
def Document.bare (document : Document) : Document :=
  ⟨none, document.entries.map Element.bare⟩

/-- Bit flags without documentation. -/
def BitFlags.bare (flags : BitFlags) : BitFlags :=
  { flags with doc := [] }

/-- An enumeration without documentation. -/
def Enumeration.bare (enumeration : Enumeration) : Enumeration :=
  { enumeration with doc := [] }

/-- A value in a bit field without its default. -/
def BitFieldMember.bare (member : BitFieldMember) : BitFieldMember :=
  { member with default? := none }

/-- A bit field without documentation. -/
def BitField.bare (bitField : BitField) : BitField :=
  { bitField with
    doc := []
    members := bitField.members.mapValues BitFieldMember.bare }

/-- A compound without documentation. -/
def Compound.bare (compound : Compound) : Compound :=
  { compound with doc := [] }

/-- An object without documentation. -/
def NiObject.bare (object : NiObject) : NiObject :=
  { object with doc := [] }

/-- Bit flags and enumerations without documentation. -/
def Variants.bare (variants : Variants) : Variants :=
  ⟨variants.bitFlags.mapValues BitFlags.bare, variants.enumerations.mapValues Enumeration.bare⟩

/-- Bit fields, compounds and objects without documentation, with the findings about them. -/
def Structures.bare (structures : Structures) : Structures :=
  ⟨structures.bitFields.mapValues BitField.bare, structures.compounds.mapValues Compound.bare,
    structures.objects.mapValues NiObject.bare, structures.diagnostics⟩

/-- A model without documentation. -/
def Model.bare (model : Model) : Model :=
  { model.toVariants.bare, model.toStructures.bare with
    version := none
    hierarchy := model.hierarchy }

section Reading

variable {profile : Profile} {entry : Element}

/-- Whether a member is emitted does not depend on its default. -/
theorem Profile.emitsMember_without (profile : Profile) (attributes : Attributes) :
    profile.emitsMember (attributes.without "default") = profile.emitsMember attributes := by
  have hexists : memberExistsIn (attributes.without "default") = memberExistsIn attributes := by
    funext version
    unfold memberExistsIn
    rw [attributes.get?_without (by decide), attributes.get?_without (by decide)]
  unfold emitsMember
  rw [hexists, attributes.get?_without (by decide), attributes.get?_without (by decide)]

/-- The type of a member does not depend on its default. -/
theorem FieldType.ofAttributes_without (element : String) (attributes : Attributes) :
    ofAttributes element (attributes.without "default") = ofAttributes element attributes := by
  unfold ofAttributes Attributes.require
  simp (disch := decide) only [attributes.get?_without]

/-- The members of a bit field are emitted without their defaults. -/
theorem Profile.emittedMembers_bare (htag : entry.tag = "bitfield") :
    profile.emittedMembers entry.bare =
      (profile.emittedMembers entry).map (List.map Element.withoutDefault) := by
  unfold emittedMembers Element.bare
  rw [if_pos htag]
  exact filterEmitted_map (fun member => profile.emitsMember_without member.attributes) _

/-- The members of any other entry are emitted as they are. -/
theorem Profile.emittedMembers_bare_of_ne (htag : entry.tag ≠ "bitfield") :
    profile.emittedMembers entry.bare = profile.emittedMembers entry := by
  unfold emittedMembers Element.bare
  rw [if_neg htag]

/-- The bit flags of an entry without documentation are those of the entry, without it. -/
theorem BitFlags.ofElement_bare (htag : entry.tag ≠ "bitfield") :
    ofElement profile entry.bare = (ofElement profile entry).map bare := by
  unfold ofElement
  simp only [map_bind_eq, Profile.emittedMembers_bare_of_ne htag]
  rfl

/-- The enumeration of an entry without documentation is that of the entry, without it. -/
theorem Enumeration.ofElement_bare (htag : entry.tag ≠ "bitfield") :
    ofElement profile entry.bare = (ofElement profile entry).map bare := by
  unfold ofElement
  simp only [map_bind_eq, Profile.emittedMembers_bare_of_ne htag]
  rfl

/-- The compound of an entry without documentation is that of the entry, without it. -/
theorem Compound.ofElement_bare (htag : entry.tag ≠ "bitfield") :
    ofElement profile entry.bare = (ofElement profile entry).map (Prod.map bare id) := by
  unfold ofElement readFields
  simp only [map_bind_eq, Profile.emittedMembers_bare_of_ne htag]
  rfl

/-- The object of an entry without documentation is that of the entry, without it. -/
theorem NiObject.ofElement_bare (htag : entry.tag ≠ "bitfield") :
    ofElement profile entry.bare = (ofElement profile entry).map (Prod.map bare id) := by
  unfold ofElement readFields
  simp only [map_bind_eq, Profile.emittedMembers_bare_of_ne htag]
  rfl

/-- A member without its default is added without it. -/
theorem BitField.addMember_withoutDefault (beginnings : OrderedMap String String)
    (members : OrderedMap String BitFieldMember) (member : Element) :
    addMember beginnings (members.mapValues BitFieldMember.bare) member.withoutDefault =
      (addMember beginnings members member).map (OrderedMap.mapValues BitFieldMember.bare) := by
  have hrequire {key : String} (hkey : key ≠ "default") :
      member.withoutDefault.require key = member.require key := by
    unfold Element.require Attributes.require Element.withoutDefault
    rw [member.attributes.get?_without hkey]
  have hdefault : member.withoutDefault.get? "default" = none :=
    member.attributes.get?_without_self "default"
  have htype : FieldType.ofAttributes member.withoutDefault.tag member.withoutDefault.attributes =
      FieldType.ofAttributes member.tag member.attributes :=
    FieldType.ofAttributes_without member.tag member.attributes
  have hset (name : String) (type : FieldType) (position mask : String) (default? : Option String) :
      (Except.ok (members.insert (fieldName name) ⟨type, position, mask, default?⟩)).map
          (OrderedMap.mapValues BitFieldMember.bare) =
        (.ok ((members.mapValues BitFieldMember.bare).insert (fieldName name)
          ⟨type, position, mask, none⟩) : Except InputError _) :=
    congrArg Except.ok (OrderedMap.mapValues_insert ..)
  unfold addMember
  simp (disch := decide) only [map_bind_eq, hrequire, hdefault, htype, hset, Option.map_none]

/-- The bit field of an entry without documentation is that of the entry, without it. -/
theorem BitField.ofElement_bare (beginnings : OrderedMap String String)
    (htag : entry.tag = "bitfield") :
    ofElement profile beginnings entry.bare = (ofElement profile beginnings entry).map bare := by
  have hmembers (members : List Element) :
      (members.map Element.withoutDefault).foldlM (addMember beginnings) OrderedMap.empty =
        (members.foldlM (addMember beginnings) OrderedMap.empty).map
          (OrderedMap.mapValues BitFieldMember.bare) :=
    foldlM_map_view (fun layouts member _ => addMember_withoutDefault beginnings layouts member)
      OrderedMap.empty
  unfold ofElement
  simp only [Profile.emittedMembers_bare htag, map_bind_eq, bind_map_eq, hmembers]
  rfl

/-- Bit fields are what the entries with their tag describe. -/
theorem EntryKind.tag_eq_iff {kind : EntryKind} {tag : String} (h : ofTag? tag = some kind) :
    tag = "bitfield" ↔ kind = .bitField := by
  constructor
  · rintro rfl
    exact (Option.some.inj h).symm
  · rintro rfl
    unfold ofTag? at h
    split at h <;> first | rfl | cases h

/-- An entry without its documentation adds what it describes, without documentation. -/
theorem Variants.addEntry_bare (variants : Variants) (entry : Element) :
    addEntry profile variants.bare entry.bare = (addEntry profile variants entry).map bare := by
  -- What is left out of a structure before it is stored may as well be left out behind it.
  have hflags (flags : BitFlags) :
      (Except.ok { variants with bitFlags := variants.bitFlags.insert flags.name flags }).map bare =
        (.ok { variants.bare with
          bitFlags := variants.bare.bitFlags.insert flags.name flags.bare } :
            Except InputError Variants) := by
    unfold bare
    rw [Except.map, OrderedMap.mapValues_insert]
  have henumeration (enumeration : Enumeration) :
      (Except.ok { variants with
        enumerations := variants.enumerations.insert enumeration.name enumeration }).map bare =
        (.ok { variants.bare with
          enumerations := variants.bare.enumerations.insert enumeration.name enumeration.bare } :
            Except InputError Variants) := by
    unfold bare
    rw [Except.map, OrderedMap.mapValues_insert]
  have htag {kind : EntryKind} (h : EntryKind.ofTag? entry.tag = some kind)
      (hkind : kind ≠ .bitField) : entry.tag ≠ "bitfield" :=
    fun hbitField => hkind ((EntryKind.tag_eq_iff h).mp hbitField)
  have hsame : entry.bare.tag = entry.tag := rfl
  unfold addEntry
  rw [hsame]
  cases hkind : EntryKind.ofTag? entry.tag with
  | none => rfl
  | some kind =>
    cases kind with
    | bitFlags =>
      simp only [BitFlags.ofElement_bare (htag hkind nofun), bind_map_eq, map_bind_eq, hflags]
      rfl
    | enumeration =>
      simp only [Enumeration.ofElement_bare (htag hkind nofun), bind_map_eq, map_bind_eq,
        henumeration]
      rfl
    | bitField => rfl
    | compound => rfl
    | object => rfl

/-- An entry without its documentation adds what it describes, without documentation. -/
theorem Structures.addEntry_bare (beginnings : OrderedMap String String) (structures : Structures)
    (entry : Element) :
    addEntry profile beginnings structures.bare entry.bare =
      (addEntry profile beginnings structures entry).map bare := by
  have hbitField (bitField : BitField) :
      (Except.ok { structures with
        bitFields := structures.bitFields.insert bitField.name bitField }).map bare =
        (.ok { structures.bare with
          bitFields := structures.bare.bitFields.insert bitField.name bitField.bare } :
            Except InputError Structures) := by
    unfold bare
    rw [Except.map, OrderedMap.mapValues_insert]
  have hcompound (compound : Compound) (findings : List Diagnostic) :
      (Except.ok { structures with
        compounds := structures.compounds.insert compound.name compound
        diagnostics := structures.diagnostics ++ findings }).map bare =
        (.ok { structures.bare with
          compounds := structures.bare.compounds.insert compound.name compound.bare
          diagnostics := structures.diagnostics ++ findings } : Except InputError Structures) := by
    unfold bare
    rw [Except.map, OrderedMap.mapValues_insert]
  have hobject (object : NiObject) (findings : List Diagnostic) :
      (Except.ok { structures with
        objects := structures.objects.insert object.name object
        diagnostics := structures.diagnostics ++ findings }).map bare =
        (.ok { structures.bare with
          objects := structures.bare.objects.insert object.name object.bare
          diagnostics := structures.diagnostics ++ findings } : Except InputError Structures) := by
    unfold bare
    rw [Except.map, OrderedMap.mapValues_insert]
  have hsame : entry.bare.tag = entry.tag := rfl
  have hname : entry.bare.get? "name" = entry.get? "name" := rfl
  unfold addEntry
  rw [hsame, hname]
  cases hkind : EntryKind.ofTag? entry.tag with
  | none => rfl
  | some kind =>
    cases kind with
    | bitFlags => rfl
    | enumeration => rfl
    | bitField =>
      have htag : entry.tag = "bitfield" := (EntryKind.tag_eq_iff hkind).mpr rfl
      simp only [BitField.ofElement_bare beginnings htag, bind_map_eq, map_bind_eq, hbitField]
      rfl
    | compound =>
      have htag : entry.tag ≠ "bitfield" := fun htag => nomatch (EntryKind.tag_eq_iff hkind).mp htag
      simp only [Compound.ofElement_bare htag, bind_map_eq, map_bind_eq, hcompound]
      rfl
    | object =>
      have htag : entry.tag ≠ "bitfield" := fun htag => nomatch (EntryKind.tag_eq_iff hkind).mp htag
      by_cases hroot : entry.get? "name" = some profile.rootObject
      · simp only [if_pos hroot]
        rfl
      · simp only [if_neg hroot, NiObject.ofElement_bare htag, bind_map_eq, map_bind_eq, hobject]
        rfl

/-- Bit fields refer to enumerations, whose beginnings are no documentation. -/
theorem Variants.beginnings_bare (variants : Variants) :
    variants.bare.beginnings = variants.beginnings := by
  unfold beginnings bare
  rw [OrderedMap.values_mapValues, List.filterMap_map]
  rfl

end Reading

namespace Model

section Stored

variable (model : Model)

/-- The bit flags of a model without documentation. -/
theorem values_bitFlags_bare :
    model.bare.bitFlags.values = model.bitFlags.values.map BitFlags.bare :=
  OrderedMap.values_mapValues BitFlags.bare model.bitFlags

/-- The enumerations of a model without documentation. -/
theorem values_enumerations_bare :
    model.bare.enumerations.values = model.enumerations.values.map Enumeration.bare :=
  OrderedMap.values_mapValues Enumeration.bare model.enumerations

/-- The bit fields of a model without documentation. -/
theorem values_bitFields_bare :
    model.bare.bitFields.values = model.bitFields.values.map BitField.bare :=
  OrderedMap.values_mapValues BitField.bare model.bitFields

/-- The compounds of a model without documentation. -/
theorem values_compounds_bare :
    model.bare.compounds.values = model.compounds.values.map Compound.bare :=
  OrderedMap.values_mapValues Compound.bare model.compounds

/-- The objects of a model without documentation. -/
theorem values_objects_bare :
    model.bare.objects.values = model.objects.values.map NiObject.bare :=
  OrderedMap.values_mapValues NiObject.bare model.objects

/-- The enumeration under a name in a model without documentation. -/
theorem get?_enumerations_bare (name : String) :
    model.bare.enumerations.get? name = (model.enumerations.get? name).map Enumeration.bare :=
  OrderedMap.get?_mapValues Enumeration.bare model.enumerations name

/-- The compound under a name in a model without documentation. -/
theorem get?_compounds_bare (name : String) :
    model.bare.compounds.get? name = (model.compounds.get? name).map Compound.bare :=
  OrderedMap.get?_mapValues Compound.bare model.compounds name

end Stored

/-- The parents of objects are no documentation. -/
theorem parentLinks_bare (objects : OrderedMap String NiObject) :
    parentLinks (objects.mapValues NiObject.bare) = parentLinks objects := by
  refine OrderedMap.ext ?_
  simp [parentLinks, OrderedMap.mapValues, NiObject.bare]

/-- The structures of entries without documentation are those of the entries, without it. -/
theorem readEntries_bare (profile : Profile) (entries : List Element) :
    readEntries profile (entries.map Element.bare) =
      (readEntries profile entries).map (Prod.map Variants.bare Structures.bare) := by
  have hvariants : (entries.map Element.bare).foldlM (Variants.addEntry profile) {} =
      (entries.foldlM (Variants.addEntry profile) {}).map Variants.bare :=
    foldlM_map_view (fun variants entry _ => Variants.addEntry_bare variants entry)
      ({} : Variants)
  have hstructures (beginnings : OrderedMap String String) :
      (entries.map Element.bare).foldlM (Structures.addEntry profile beginnings) {} =
        (entries.foldlM (Structures.addEntry profile beginnings) {}).map Structures.bare :=
    foldlM_map_view
      (fun structures entry _ => Structures.addEntry_bare beginnings structures entry)
      ({} : Structures)
  unfold readEntries
  simp only [hvariants, bind_map_eq, Variants.beginnings_bare, hstructures, map_bind_eq]
  rfl

/-- The model of a document without documentation is its model, without documentation. If one of
them does not exist, neither does the other, for the same reason. -/
theorem ofDocument_bare (profile : Profile) (document : Document) :
    ofDocument profile document.bare = (ofDocument profile document).map bare := by
  have hread : (filterEmitted profile.emitsEntry document.bare.entries >>= readEntries profile) =
      (filterEmitted profile.emitsEntry document.entries >>= readEntries profile).map
        (Prod.map Variants.bare Structures.bare) := by
    have hchosen : filterEmitted profile.emitsEntry document.bare.entries =
        (filterEmitted profile.emitsEntry document.entries).map (List.map Element.bare) :=
      filterEmitted_map (f := Element.bare) (fun _ => rfl) document.entries
    rw [hchosen, bind_map_eq, map_bind_eq]
    exact bind_congr fun entries => readEntries_bare profile entries
  unfold ofDocument
  simp only [hread]
  cases filterEmitted profile.emitsEntry document.entries >>= readEntries profile with
  | error error => rfl
  | ok read =>
    obtain ⟨variants, structures⟩ := read
    simp only [Except.map, Except.mapError, Prod.map, Bind.bind, Except.bind, Structures.bare,
      parentLinks_bare]
    cases Hierarchy.resolve (parentLinks structures.objects) with
    | error path => rfl
    | ok hierarchy => rfl

/-- A document that differs in documentation alone has a model that differs in documentation
alone. -/
theorem exists_ofDocument_of_bare_eq {profile : Profile} {a b : Document} {model : Model}
    (hsame : a.bare = b.bare) (h : ofDocument profile a = .ok model) :
    ∃ other, ofDocument profile b = .ok other ∧ model.bare = other.bare := by
  have hmodels : (ofDocument profile b).map bare = .ok model.bare := by
    rw [← ofDocument_bare, ← hsame, ofDocument_bare, h]
    rfl
  obtain ⟨other, hother, hbare⟩ := map_eq_ok_iff.mp hmodels
  exact ⟨other, hother, hbare.symm⟩

/-- The models of documents that differ in documentation alone differ in documentation alone. -/
theorem bare_eq_of_ofDocument {profile : Profile} {a b : Document} {model other : Model}
    (hsame : a.bare = b.bare) (ha : ofDocument profile a = .ok model)
    (hb : ofDocument profile b = .ok other) : model.bare = other.bare := by
  obtain ⟨another, hanother, hbare⟩ := exists_ofDocument_of_bare_eq hsame ha
  cases hanother.symm.trans hb
  exact hbare

end Model

section Lines

/-- Whether no line of some documentation goes on behind a line feed. -/
def InLines (doc : List String) : Prop :=
  ∀ line ∈ doc, '\n' ∉ line.toList

/-- A text is documented in lines. -/
theorem inLines_docLines (text : String) : InLines (Text.docLines text) := by
  have htrim {part : List Char} {c : Char} (h : c ∈ Text.trimBoth part) : c ∈ part := by
    unfold Text.trimBoth Text.trimRight at h
    rw [List.mem_reverse] at h
    have hback := (List.dropWhile_sublist Text.isBlank).mem h
    exact (List.dropWhile_sublist Text.isBlank).mem (List.mem_reverse.mp hback)
  intro line hline
  unfold Text.docLines at hline
  split at hline
  · cases hline
  · obtain ⟨part, hpart, rfl⟩ := List.mem_map.mp hline
    rw [String.toList_ofList]
    exact fun hfeed => not_mem_of_mem_splitOn hpart (htrim hfeed)

/-- The documentation of a structure. -/
def Entity.doc : Entity → List String
  | .bitFlags described => described.doc
  | .enumeration described => described.doc
  | .bitField described => described.doc
  | .compound described => described.doc
  | .object described => described.doc

/-- A structure is documented with the text of its entry. -/
theorem EntryKind.doc_of_read {profile : Profile} {beginnings : OrderedMap String String}
    {kind : EntryKind} {entry : Element} {name : String} {entity : Entity}
    (h : kind.read profile beginnings entry = .ok (name, entity)) :
    entity.doc = Text.docLines entry.text := by
  cases kind with
  | bitFlags =>
    obtain ⟨flags, hread, h⟩ := map_eq_ok_iff.mp h
    simp only [BitFlags.ofElement, bind_eq_ok_iff, Except.ok.injEq] at hread
    obtain ⟨members, -, bits, -, written, -, storage, -, rfl⟩ := hread
    cases h
    rfl
  | enumeration =>
    obtain ⟨described, hread, h⟩ := map_eq_ok_iff.mp h
    simp only [Enumeration.ofElement, bind_eq_ok_iff, Except.ok.injEq] at hread
    obtain ⟨members, -, options, -, written, -, storage, -, rfl⟩ := hread
    cases h
    rfl
  | bitField =>
    obtain ⟨bitField, hread, h⟩ := map_eq_ok_iff.mp h
    simp only [BitField.ofElement, bind_eq_ok_iff, Except.ok.injEq] at hread
    obtain ⟨members, -, layouts, -, written, -, storage, -, rfl⟩ := hread
    cases h
    rfl
  | compound =>
    obtain ⟨described, hread, h⟩ := map_eq_ok_iff.mp h
    simp only [Compound.ofElement, bind_eq_ok_iff, Except.ok.injEq] at hread
    obtain ⟨written, -, fields, -, rfl⟩ := hread
    cases h
    rfl
  | object =>
    obtain ⟨described, hread, h⟩ := map_eq_ok_iff.mp h
    simp only [NiObject.ofElement, bind_eq_ok_iff, Except.ok.injEq] at hread
    obtain ⟨written, -, parent, -, fields, -, rfl⟩ := hread
    cases h
    rfl

/-- Whether every structure of a model is documented in lines. -/
structure Model.IsInLines (model : Model) : Prop where
  bitFlags : ∀ flags ∈ model.bitFlags.values, InLines flags.doc
  enumerations : ∀ enumeration ∈ model.enumerations.values, InLines enumeration.doc
  bitFields : ∀ bitField ∈ model.bitFields.values, InLines bitField.doc
  compounds : ∀ compound ∈ model.compounds.values, InLines compound.doc
  objects : ∀ object ∈ model.objects.values, InLines object.doc

/-- The model of a document is documented in lines. -/
theorem Model.isInLines_of_ofDocument {profile : Profile} {document : Document} {model : Model}
    (h : ofDocument profile document = .ok model) : model.IsInLines := by
  have hdoc (kind : EntryKind) {α : Type} {entity : α → Entity} {stored : OrderedMap String α}
      (hstored : model.entities kind = stored.mapValues entity) (value : α)
      (hvalue : value ∈ stored.values) : InLines (entity value).doc := by
    obtain ⟨⟨name, value⟩, hmem, rfl⟩ := List.mem_map.mp hvalue
    have hentity : (name, entity value) ∈ (model.entities kind).entries :=
      hstored ▸ List.mem_map.mpr ⟨(name, value), hmem, rfl⟩
    obtain ⟨entry, -, hread⟩ := exists_entry_of_mem h hentity
    rw [EntryKind.doc_of_read hread]
    exact inLines_docLines entry.text
  exact {
    bitFlags := hdoc .bitFlags rfl
    enumerations := hdoc .enumeration rfl
    bitFields := hdoc .bitField rfl
    compounds := hdoc .compound rfl
    objects := hdoc .object rfl }

end Lines

end NifBindings
