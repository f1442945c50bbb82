import NifBindings.Model
import NifBindings.Proofs.Inclusion
import NifBindings.Proofs.OrderedMap

/-!
# What a model is made from

Each of the five maps of a model is made from the emitted entries of one kind. They are read in
order, and what is read from each of them is set under its converted name.
-/

namespace NifBindings

/-- Bit flags have the name of their entry, and the bits of its emitted members. -/
theorem BitFlags.exists_of_ofElement {profile : Profile} {entry : Element} {flags : BitFlags}
    (h : ofElement profile entry = .ok flags) :
    entry.get? "name" = some flags.name ∧ ∃ members, profile.emittedMembers entry = .ok members ∧
      readVariants (entry.get? "prefix") "bit" (Text.readNat 10 Text.maxNat32) members =
        .ok flags.flags := by
  obtain ⟨members, hmembers, h⟩ := bind_eq_ok_iff.mp h
  obtain ⟨bits, hbits, h⟩ := bind_eq_ok_iff.mp h
  obtain ⟨name, hname, h⟩ := bind_eq_ok_iff.mp h
  obtain ⟨storage, -, h⟩ := bind_eq_ok_iff.mp h
  cases h
  exact ⟨Element.require_eq_ok_iff.mp hname, members, hmembers, hbits⟩

/-- An enumeration has the name of its entry, and the values of its emitted members. -/
theorem Enumeration.exists_of_ofElement {profile : Profile} {entry : Element}
    {enumeration : Enumeration} (h : ofElement profile entry = .ok enumeration) :
    entry.get? "name" = some enumeration.name ∧
      ∃ members, profile.emittedMembers entry = .ok members ∧
        readVariants (entry.get? "prefix") "value" readOptionValue members =
          .ok enumeration.options := by
  obtain ⟨members, hmembers, h⟩ := bind_eq_ok_iff.mp h
  obtain ⟨options, hoptions, h⟩ := bind_eq_ok_iff.mp h
  obtain ⟨name, hname, h⟩ := bind_eq_ok_iff.mp h
  obtain ⟨storage, -, h⟩ := bind_eq_ok_iff.mp h
  cases h
  exact ⟨Element.require_eq_ok_iff.mp hname, members, hmembers, hoptions⟩

/-- A bit field has the name of its entry, and the layouts of its emitted members. -/
theorem BitField.exists_of_ofElement {profile : Profile} {beginnings : OrderedMap String String}
    {entry : Element} {bitField : BitField}
    (h : ofElement profile beginnings entry = .ok bitField) :
    entry.get? "name" = some bitField.name ∧
      ∃ members, profile.emittedMembers entry = .ok members ∧
        members.foldlM (addMember beginnings) OrderedMap.empty = .ok bitField.members := by
  obtain ⟨members, hmembers, h⟩ := bind_eq_ok_iff.mp h
  obtain ⟨layouts, hlayouts, h⟩ := bind_eq_ok_iff.mp h
  obtain ⟨name, hname, h⟩ := bind_eq_ok_iff.mp h
  obtain ⟨storage, -, h⟩ := bind_eq_ok_iff.mp h
  cases h
  exact ⟨Element.require_eq_ok_iff.mp hname, members, hmembers, hlayouts⟩

/-- A compound has the converted name of its entry, and the fields of the entry. -/
theorem Compound.exists_of_ofElement {profile : Profile} {entry : Element} {compound : Compound}
    {findings : List Diagnostic} (h : ofElement profile entry = .ok (compound, findings)) :
    (∃ name, entry.get? "name" = some name ∧ compound.name = typeName name) ∧
      readFields profile compound.name entry = .ok (compound.fields, findings) := by
  obtain ⟨name, hname, h⟩ := bind_eq_ok_iff.mp h
  obtain ⟨⟨fields, found⟩, hfields, h⟩ := bind_eq_ok_iff.mp h
  cases h
  exact ⟨⟨name, Element.require_eq_ok_iff.mp hname, rfl⟩, hfields⟩

/-- An object has the converted name of its entry, is abstract if the entry says so, and has the
fields of the entry. -/
theorem NiObject.exists_of_ofElement {profile : Profile} {entry : Element} {object : NiObject}
    {findings : List Diagnostic} (h : ofElement profile entry = .ok (object, findings)) :
    (∃ name, entry.get? "name" = some name ∧ object.name = structureName name) ∧
      object.isAbstract = (entry.get? "abstract" == some "true") ∧
      readFields profile object.name entry = .ok (object.fields, findings) := by
  obtain ⟨name, hname, h⟩ := bind_eq_ok_iff.mp h
  obtain ⟨inherit, -, h⟩ := bind_eq_ok_iff.mp h
  obtain ⟨⟨fields, found⟩, hfields, h⟩ := bind_eq_ok_iff.mp h
  cases h
  exact ⟨⟨name, Element.require_eq_ok_iff.mp hname, rfl⟩, rfl, hfields⟩

/-- A structure of a model. -/
inductive Entity where
  | bitFlags (flags : BitFlags)
  | enumeration (enumeration : Enumeration)
  | bitField (bitField : BitField)
  | compound (compound : Compound)
  | object (object : NiObject)

/-- Whether an entry describes a structure of a kind. The root object is none of a model. -/
def Profile.declares (profile : Profile) (kind : EntryKind) (entry : Element) : Bool :=
  EntryKind.ofTag? entry.tag == some kind &&
    !(kind == .object && entry.get? "name" == some profile.rootObject)

namespace EntryKind

/-- The name under which a structure of a kind is kept. -/
def storedName (kind : EntryKind) (name : String) : String :=
  match kind with
  | .compound => typeName name
  | .object => structureName name
  | _ => name

/-- The structure that an entry of a kind describes, with its name. -/
def read (profile : Profile) (beginnings : OrderedMap String String) (kind : EntryKind)
    (entry : Element) : Except InputError (String × Entity) :=
  match kind with
  | .bitFlags => (BitFlags.ofElement profile entry).map fun flags => (flags.name, .bitFlags flags)
  | .enumeration => (Enumeration.ofElement profile entry).map fun enumeration =>
    (enumeration.name, .enumeration enumeration)
  | .bitField => (BitField.ofElement profile beginnings entry).map fun bitField =>
    (bitField.name, .bitField bitField)
  | .compound => (Compound.ofElement profile entry).map fun read =>
    (read.1.name, .compound read.1)
  | .object => (NiObject.ofElement profile entry).map fun read =>
    (read.1.name, .object read.1)

/-- Every structure is kept under the name that its entry has in the schema, converted for its
kind. -/
theorem name_of_read {profile : Profile} {beginnings : OrderedMap String String}
    {kind : EntryKind} {entry : Element} {name : String} {entity : Entity}
    (h : kind.read profile beginnings entry = .ok (name, entity)) :
    ∃ written, entry.get? "name" = some written ∧ name = kind.storedName written := by
  cases kind with
  | bitFlags =>
    obtain ⟨flags, hread, h⟩ := map_eq_ok_iff.mp h
    cases h
    exact ⟨flags.name, (BitFlags.exists_of_ofElement hread).1, rfl⟩
  | enumeration =>
    obtain ⟨enumeration, hread, h⟩ := map_eq_ok_iff.mp h
    cases h
    exact ⟨enumeration.name, (Enumeration.exists_of_ofElement hread).1, rfl⟩
  | bitField =>
    obtain ⟨bitField, hread, h⟩ := map_eq_ok_iff.mp h
    cases h
    exact ⟨bitField.name, (BitField.exists_of_ofElement hread).1, rfl⟩
  | compound =>
    obtain ⟨⟨compound, findings⟩, hread, h⟩ := map_eq_ok_iff.mp h
    obtain ⟨⟨written, hwritten, hname⟩, -⟩ := Compound.exists_of_ofElement hread
    cases h
    exact ⟨written, hwritten, hname⟩
  | object =>
    obtain ⟨⟨object, findings⟩, hread, h⟩ := map_eq_ok_iff.mp h
    obtain ⟨⟨written, hwritten, hname⟩, -⟩ := NiObject.exists_of_ofElement hread
    cases h
    exact ⟨written, hwritten, hname⟩

end EntryKind

namespace Variants

/-- The structures of a kind among bit flags and enumerations. -/
def entities (variants : Variants) : EntryKind → OrderedMap String Entity
  | .bitFlags => variants.bitFlags.mapValues .bitFlags
  | .enumeration => variants.enumerations.mapValues .enumeration
  | _ => .empty

/-- At first there are no structures of any kind. -/
theorem entities_empty (kind : EntryKind) : ({} : Variants).entities kind = .empty := by
  cases kind <;> rfl

/-- An entry adds the bit flags or the enumeration that it describes, or nothing. -/
theorem addEntry_cases {profile : Profile} {variants next : Variants} {entry : Element}
    (h : addEntry profile variants entry = .ok next) :
    (∃ flags, EntryKind.ofTag? entry.tag = some .bitFlags ∧
        BitFlags.ofElement profile entry = .ok flags ∧
        next = { variants with bitFlags := variants.bitFlags.insert flags.name flags }) ∨
      (∃ enumeration, EntryKind.ofTag? entry.tag = some .enumeration ∧
        Enumeration.ofElement profile entry = .ok enumeration ∧
        next = { variants with
          enumerations := variants.enumerations.insert enumeration.name enumeration }) ∨
      ((∀ kind ∈ [EntryKind.bitFlags, .enumeration], profile.declares kind entry = false) ∧
        next = variants) := by
  unfold addEntry at h
  split at h
  next htag =>
    obtain ⟨flags, hflags, h⟩ := bind_eq_ok_iff.mp h
    cases h
    exact .inl ⟨flags, htag, hflags, rfl⟩
  next htag =>
    obtain ⟨enumeration, henumeration, h⟩ := bind_eq_ok_iff.mp h
    cases h
    exact .inr (.inl ⟨enumeration, htag, henumeration, rfl⟩)
  next hflags henumeration =>
    cases h
    refine .inr (.inr ⟨?_, rfl⟩)
    simp only [List.forall_mem_cons, List.not_mem_nil, false_implies, implies_true, and_true,
      Profile.declares, Bool.and_eq_false_iff, beq_eq_false_iff_ne]
    exact ⟨.inl hflags, .inl henumeration⟩

/-- An entry that describes bit flags or an enumeration sets it, and any other entry leaves them as
they are. -/
theorem entities_addEntry {profile : Profile} {variants next : Variants} {entry : Element}
    (beginnings : OrderedMap String String) {kind : EntryKind}
    (hkind : kind ∈ [.bitFlags, .enumeration])
    (h : addEntry profile variants entry = .ok next) :
    if profile.declares kind entry then ∃ declared,
      kind.read profile beginnings entry = .ok declared ∧
        next.entities kind = (variants.entities kind).insert declared.1 declared.2
    else next.entities kind = variants.entities kind := by
  rcases addEntry_cases h with ⟨flags, htag, hread, rfl⟩ | ⟨enumeration, htag, hread, rfl⟩ |
    ⟨hnone, rfl⟩
  · cases kind <;> simp [Profile.declares, htag, EntryKind.read, hread, entities, Except.map,
      OrderedMap.mapValues_insert]
  · cases kind <;> simp [Profile.declares, htag, EntryKind.read, hread, entities, Except.map,
      OrderedMap.mapValues_insert]
  · rw [hnone kind hkind]
    rfl

end Variants

namespace Structures

/-- The structures of a kind among bit fields, compounds and objects. -/
def entities (structures : Structures) : EntryKind → OrderedMap String Entity
  | .bitField => structures.bitFields.mapValues .bitField
  | .compound => structures.compounds.mapValues .compound
  | .object => structures.objects.mapValues .object
  | _ => .empty

/-- At first there are no structures of any kind. -/
theorem entities_empty (kind : EntryKind) : ({} : Structures).entities kind = .empty := by
  cases kind <;> rfl

variable {profile : Profile} {beginnings : OrderedMap String String} {structures next : Structures}
  {entry : Element}

/-- An entry adds the bit field, the compound or the object that it describes, or nothing. -/
theorem addEntry_cases (h : addEntry profile beginnings structures entry = .ok next) :
    (∃ bitField, EntryKind.ofTag? entry.tag = some .bitField ∧
        BitField.ofElement profile beginnings entry = .ok bitField ∧
        next = { structures with
          bitFields := structures.bitFields.insert bitField.name bitField }) ∨
      (∃ compound findings, EntryKind.ofTag? entry.tag = some .compound ∧
        Compound.ofElement profile entry = .ok (compound, findings) ∧
        next = { structures with
          compounds := structures.compounds.insert compound.name compound
          diagnostics := structures.diagnostics ++ findings }) ∨
      (∃ object findings, EntryKind.ofTag? entry.tag = some .object ∧
        entry.get? "name" ≠ some profile.rootObject ∧
        NiObject.ofElement profile entry = .ok (object, findings) ∧
        next = { structures with
          objects := structures.objects.insert object.name object
          diagnostics := structures.diagnostics ++ findings }) ∨
      ((∀ kind ∈ [EntryKind.bitField, .compound, .object], profile.declares kind entry = false) ∧
        next = structures) := by
  unfold addEntry at h
  split at h
  next htag =>
    obtain ⟨bitField, hread, h⟩ := bind_eq_ok_iff.mp h
    cases h
    exact .inl ⟨bitField, htag, hread, rfl⟩
  next htag =>
    obtain ⟨⟨compound, findings⟩, hread, h⟩ := bind_eq_ok_iff.mp h
    cases h
    exact .inr (.inl ⟨compound, findings, htag, hread, rfl⟩)
  next htag =>
    split at h
    next hroot =>
      cases h
      exact .inr (.inr (.inr ⟨by simp [Profile.declares, htag, hroot], rfl⟩))
    next hroot =>
      obtain ⟨⟨object, findings⟩, hread, h⟩ := bind_eq_ok_iff.mp h
      cases h
      exact .inr (.inr (.inl ⟨object, findings, htag, hroot, hread, rfl⟩))
  next hbitField hcompound hobject =>
    cases h
    refine .inr (.inr (.inr ⟨?_, rfl⟩))
    simp only [List.forall_mem_cons, List.not_mem_nil, false_implies, implies_true, and_true,
      Profile.declares, Bool.and_eq_false_iff, beq_eq_false_iff_ne]
    exact ⟨.inl hbitField, .inl hcompound, .inl hobject⟩

/-- An entry that describes a bit field, a compound or an object sets it, and any other entry leaves
them as they are. -/
theorem entities_addEntry {kind : EntryKind} (hkind : kind ∈ [.bitField, .compound, .object])
    (h : addEntry profile beginnings structures entry = .ok next) :
    if profile.declares kind entry then ∃ declared,
      kind.read profile beginnings entry = .ok declared ∧
        next.entities kind = (structures.entities kind).insert declared.1 declared.2
    else next.entities kind = structures.entities kind := by
  rcases addEntry_cases h with ⟨bitField, htag, hread, rfl⟩ |
    ⟨compound, findings, htag, hread, rfl⟩ | ⟨object, findings, htag, hroot, hread, rfl⟩ |
    ⟨hnone, rfl⟩
  · cases kind <;> simp [Profile.declares, htag, EntryKind.read, hread, entities, Except.map,
      OrderedMap.mapValues_insert]
  · cases kind <;> simp [Profile.declares, htag, EntryKind.read, hread, entities, Except.map,
      OrderedMap.mapValues_insert]
  · cases kind <;> simp [Profile.declares, htag, hroot, EntryKind.read, hread, entities, Except.map,
      OrderedMap.mapValues_insert]
  · rw [hnone kind hkind]
    rfl

end Structures

namespace Model

/-- The structures of a kind in a model, under their names. -/
def entities (model : Model) (kind : EntryKind) : OrderedMap String Entity :=
  match kind with
  | .bitFlags | .enumeration => model.toVariants.entities kind
  | .bitField | .compound | .object => model.toStructures.entities kind

/-- A model has been read from emitted entries, and its hierarchy resolved. -/
theorem exists_of_ofDocument {profile : Profile} {document : Document} {model : Model}
    (h : ofDocument profile document = .ok model) :
    ∃ entries structures, filterEmitted profile.emitsEntry document.entries = .ok entries ∧
      readEntries profile entries = .ok (model.toVariants, structures) ∧
      Hierarchy.resolve (parentLinks structures.objects) = .ok model.hierarchy ∧
      model.toStructures = { structures with
        diagnostics := structures.diagnostics ++ (parentLinks structures.objects).unresolved } ∧
      model.version = document.version := by
  obtain ⟨⟨variants, structures⟩, hread, h⟩ := bind_eq_ok_iff.mp h
  obtain ⟨hierarchy, hresolve, h⟩ := bind_eq_ok_iff.mp h
  cases h
  rw [mapError_eq_ok_iff] at hread hresolve
  obtain ⟨entries, hentries, hread⟩ := bind_eq_ok_iff.mp hread
  exact ⟨entries, structures, hentries, hread, hresolve, rfl, rfl⟩

/-- The structures of a kind are those that the emitted entries of that kind describe, set in order
under their names. -/
theorem exists_declared {profile : Profile} {document : Document} {model : Model}
    (h : ofDocument profile document = .ok model) :
    ∃ entries, filterEmitted profile.emitsEntry document.entries = .ok entries ∧
      ∀ kind, ∃ declared,
        (entries.filter (profile.declares kind)).mapM (kind.read profile model.beginnings) =
            .ok declared ∧
          model.entities kind = .ofList declared := by
  obtain ⟨entries, structures, hentries, hread, -, hstructures, -⟩ := exists_of_ofDocument h
  obtain ⟨variants, hvariants, hread⟩ := bind_eq_ok_iff.mp hread
  obtain ⟨structures', hrun, hread⟩ := bind_eq_ok_iff.mp hread
  cases hread
  refine ⟨entries, hentries, fun kind => ?_⟩
  have hvariant (hkind : kind ∈ [.bitFlags, .enumeration]) :=
    OrderedMap.exists_ofList_of_foldlM (fun variants : Variants => variants.entities kind)
      hvariants (Variants.entities_empty kind) (Variants.entities_addEntry model.beginnings hkind)
  have hstructure (hkind : kind ∈ [.bitField, .compound, .object]) :=
    OrderedMap.exists_ofList_of_foldlM (fun structures : Structures => structures.entities kind)
      hrun (Structures.entities_empty kind) (Structures.entities_addEntry hkind)
  have hsame (kind : EntryKind) : model.toStructures.entities kind = structures.entities kind := by
    rw [hstructures]
    cases kind <;> rfl
  cases kind with
  | bitFlags => exact hvariant (by simp)
  | enumeration => exact hvariant (by simp)
  | bitField =>
    rw [entities, hsame]
    exact hstructure (by simp)
  | compound =>
    rw [entities, hsame]
    exact hstructure (by simp)
  | object =>
    rw [entities, hsame]
    exact hstructure (by simp)

/-- A structure that is stored has been read from one of the entries that declare its kind. -/
theorem exists_emitted_of_mem {profile : Profile} {model : Model} {kind : EntryKind}
    {entries : List Element} {declared : List (String × Entity)}
    (hdeclared : (entries.filter (profile.declares kind)).mapM
      (kind.read profile model.beginnings) = .ok declared)
    (hstored : model.entities kind = .ofList declared) {named : String × Entity}
    (hmem : named ∈ (model.entities kind).entries) :
    ∃ entry ∈ entries, profile.declares kind entry = true ∧
      kind.read profile model.beginnings entry = .ok named := by
  rw [hstored] at hmem
  obtain ⟨entry, hentry, hnamed⟩ :=
    exists_of_mem_mapM hdeclared (OrderedMap.mem_of_mem_ofList hmem)
  obtain ⟨hentry, hdeclares⟩ := List.mem_filter.mp hentry
  exact ⟨entry, hentry, hdeclares, hnamed⟩

/-- Every structure of a model has been read from an entry. -/
theorem exists_entry_of_mem {profile : Profile} {document : Document} {model : Model}
    (h : ofDocument profile document = .ok model) {kind : EntryKind} {named : String × Entity}
    (hmem : named ∈ (model.entities kind).entries) :
    ∃ entry, profile.declares kind entry = true ∧
      kind.read profile model.beginnings entry = .ok named := by
  obtain ⟨entries, -, hkinds⟩ := exists_declared h
  obtain ⟨declared, hread, hentities⟩ := hkinds kind
  obtain ⟨entry, -, hentry⟩ := exists_emitted_of_mem hread hentities hmem
  exact ⟨entry, hentry⟩

/-- Every compound of a model has been read from an entry. -/
theorem exists_ofElement_of_mem_compounds {profile : Profile} {document : Document} {model : Model}
    (h : ofDocument profile document = .ok model) {compound : Compound}
    (hmem : compound ∈ model.compounds.values) :
    ∃ entry findings, Compound.ofElement profile entry = .ok (compound, findings) := by
  obtain ⟨⟨name, compound⟩, hstored, rfl⟩ := List.mem_map.mp hmem
  have hentity : (name, Entity.compound compound) ∈ (model.entities .compound).entries :=
    List.mem_map.mpr ⟨(name, compound), hstored, rfl⟩
  obtain ⟨entry, -, hentry⟩ := exists_entry_of_mem h hentity
  obtain ⟨⟨read, findings⟩, hread, hsame⟩ := map_eq_ok_iff.mp hentry
  cases hsame
  exact ⟨entry, findings, hread⟩

/-- Every object of a model has been read from an entry for an object. -/
theorem exists_ofElement_of_mem_objects {profile : Profile} {document : Document} {model : Model}
    (h : ofDocument profile document = .ok model) {object : NiObject}
    (hmem : object ∈ model.objects.values) :
    ∃ entry findings, profile.declares .object entry = true ∧
      NiObject.ofElement profile entry = .ok (object, findings) := by
  obtain ⟨⟨name, object⟩, hstored, rfl⟩ := List.mem_map.mp hmem
  have hentity : (name, Entity.object object) ∈ (model.entities .object).entries :=
    List.mem_map.mpr ⟨(name, object), hstored, rfl⟩
  obtain ⟨entry, hdeclares, hentry⟩ := exists_entry_of_mem h hentity
  obtain ⟨⟨read, findings⟩, hread, hsame⟩ := map_eq_ok_iff.mp hentry
  cases hsame
  exact ⟨entry, findings, hdeclares, hread⟩

end Model

end NifBindings
