import NifBindings.Proofs.Field.Collapse
import NifBindings.Proofs.Model.Collision

/-!
# Kept members

Fields of one converted name are declared one after the other, and the type of the first of them is
kept. The values in a bit field are set one after the other, and the type of the last one is kept.
Either way a type that is kept comes from one member, whose attributes name it.
-/

namespace NifBindings

section Checks

variable {ε α β : Type} {check : α → Except ε β} {inputs : List α} {values : List β}

/-- The first value that is looked for comes from the first input that is. -/
theorem exists_find?_of_forall₂ (wanted : α → Bool) {found : β → Bool}
    (hall : List.Forall₂ (fun input value => check input = .ok value) inputs values)
    (hsame : ∀ {input value}, check input = .ok value → found value = wanted input) {value : β}
    (h : values.find? found = some value) :
    ∃ input, inputs.find? wanted = some input ∧ check input = .ok value := by
  induction hall with
  | nil => cases h
  | @cons input first inputs values hfirst _ ih =>
    rw [List.find?_cons, hsame hfirst] at h
    rw [List.find?_cons]
    cases hwanted : wanted input with
    | true =>
      rw [hwanted] at h
      cases h
      exact ⟨input, rfl, hfirst⟩
    | false =>
      rw [hwanted] at h
      exact ih h

end Checks

/-- Whether the converted name of a member is a given one. -/
def Element.isNamed (name : String) (member : Element) : Bool :=
  (member.get? "name").map fieldName = some name

/-- The member whose type a structure of a kind keeps under a name. -/
def EntryKind.keptMember? (kind : EntryKind) (members : List Element) (name : String) :
    Option Element :=
  match kind with
  | .bitFlags => none
  | .enumeration => none
  | .bitField => members.reverse.find? (Element.isNamed name)
  | .compound => members.find? (Element.isNamed name)
  | .object => members.find? (Element.isNamed name)

/-- A member whose type is kept is one of the members. -/
theorem EntryKind.mem_of_keptMember? {kind : EntryKind} {members : List Element} {name : String}
    {member : Element} (h : kind.keptMember? members name = some member) : member ∈ members := by
  cases kind with
  | bitFlags => cases h
  | enumeration => cases h
  | bitField => exact List.mem_reverse.mp (List.mem_of_find?_eq_some h)
  | compound => exact List.mem_of_find?_eq_some h
  | object => exact List.mem_of_find?_eq_some h

/-- The types that a structure keeps under the names of its fields or values. -/
def Entity.types : Entity → OrderedMap String FieldType
  | .bitFlags _ => .empty
  | .enumeration _ => .empty
  | .bitField described => described.members.mapValues BitFieldMember.type
  | .compound described => described.fields
  | .object described => described.fields

/-- Whether a field type has the converted types that a member names. -/
structure FieldType.IsOf (type : FieldType) (member : Element) : Prop where
  /-- The base type is the one in the attribute for it. -/
  base : ∃ written, member.get? "type" = some written ∧ type.base = typeName written
  /-- The type argument is the one in the attribute for it, if it is there. -/
  parameter : type.parameter = (member.get? "template").map typeName

namespace FieldType

/-- The type that the attributes of a member describe is of that member. -/
theorem isOf_of_ofAttributes {member : Element} {type : FieldType}
    (h : ofAttributes member.tag member.attributes = .ok type) : type.IsOf member := by
  obtain ⟨written, hwritten, h⟩ := bind_eq_ok_iff.mp h
  cases h
  exact ⟨⟨written, Element.require_eq_ok_iff.mp hwritten, rfl⟩, rfl⟩

end FieldType

/-- A declared field has the converted name of its member, and a type of that member. -/
theorem isOf_of_declaredField {profile : Profile} {owner : String} {member : Element}
    {declaration : String × FieldType} (h : declaredField profile owner member = .ok declaration) :
    (member.get? "name").map fieldName = some declaration.1 ∧ declaration.2.IsOf member := by
  obtain ⟨name, hname, h⟩ := bind_eq_ok_iff.mp h
  obtain ⟨type, htype, h⟩ := bind_eq_ok_iff.mp h
  have hkept := FieldType.isOf_of_ofAttributes htype
  rw [Element.require_eq_ok_iff.mp hname, Option.map_some]
  split at h
  · cases h
    -- A correction leaves the base type and the type argument as they are.
    exact ⟨rfl, hkept.base, hkept.parameter⟩
  · cases h
    exact ⟨rfl, hkept⟩

/-- A value in a bit field has the converted name of its member, and a type of that member. -/
theorem isOf_of_readLayout {beginnings : OrderedMap String String} {member : Element}
    {layout : String × BitFieldMember} (h : readLayout beginnings member = .ok layout) :
    (member.get? "name").map fieldName = some layout.1 ∧ layout.2.type.IsOf member := by
  obtain ⟨type, htype, h⟩ := bind_eq_ok_iff.mp h
  obtain ⟨name, hname, h⟩ := bind_eq_ok_iff.mp h
  obtain ⟨position, -, h⟩ := bind_eq_ok_iff.mp h
  obtain ⟨mask, -, h⟩ := bind_eq_ok_iff.mp h
  cases h
  rw [Element.require_eq_ok_iff.mp hname]
  exact ⟨rfl, FieldType.isOf_of_ofAttributes htype⟩

/-- The type under a name is the first one that is declared under it, but for its condition. -/
theorem FieldMap.exists_find?_of_get?_ofDeclarations {declarations : List (String × FieldType)}
    {name : String} {type : FieldType} (h : (ofDeclarations declarations).get? name = some type) :
    ∃ first, declarations.find? (fun declaration => declaration.1 = name) = some (name, first) ∧
      type = { first with condition := type.condition } := by
  rw [get?_ofDeclarations] at h
  have hhead : (declaredUnder name declarations).head? =
      (declarations.find? fun declaration => declaration.1 = name).map Prod.snd := by
    rw [declaredUnder, List.head?_map, List.head?_filter]
  cases hdeclared : declaredUnder name declarations with
  | nil =>
    rw [hdeclared] at h
    cases h
  | cons first later =>
    rw [hdeclared, collapsed?] at h
    cases h
    rw [hdeclared, List.head?_cons, eq_comm, Option.map_eq_some_iff] at hhead
    obtain ⟨declaration, hfind, rfl⟩ := hhead
    have hname : declaration.1 = name := by simpa using List.find?_some hfind
    exact ⟨declaration.2, by rw [hfind, ← hname], rfl⟩

/-- The fields of an entry have the types of their first members. -/
theorem exists_find?_of_readFields {profile : Profile} {owner : String} {entry : Element}
    {fields : FieldMap} {findings : List Diagnostic}
    (h : readFields profile owner entry = .ok (fields, findings)) :
    ∃ members, profile.emittedMembers entry = .ok members ∧
      ∀ {name type}, fields.get? name = some type →
        ∃ member, members.find? (Element.isNamed name) = some member ∧ type.IsOf member := by
  obtain ⟨members, hmembers, h⟩ := bind_eq_ok_iff.mp h
  obtain ⟨declarations, hdeclarations, h⟩ := bind_eq_ok_iff.mp h
  have hfields : fields = FieldMap.ofDeclarations declarations := by
    rw [← FieldMap.declareAll_fst owner, Except.ok.inj h]
  refine ⟨members, hmembers, fun {name type} hget => ?_⟩
  rw [hfields] at hget
  obtain ⟨first, hfirst, htype⟩ := FieldMap.exists_find?_of_get?_ofDeclarations hget
  obtain ⟨member, hmember, hdeclared⟩ := exists_find?_of_forall₂ (Element.isNamed name)
    (forall₂_of_mapM hdeclarations)
    (fun hdeclared => by simp [Element.isNamed, (isOf_of_declaredField hdeclared).1]) hfirst
  obtain ⟨hbase, hparameter⟩ := (isOf_of_declaredField hdeclared).2
  rw [htype]
  exact ⟨member, hmember, hbase, hparameter⟩

/-- The values in a bit field are the layouts of their last members. -/
theorem exists_readLayout_of_addMember {beginnings : OrderedMap String String}
    {members : List Element} {layouts : OrderedMap String BitFieldMember}
    (h : members.foldlM (BitField.addMember beginnings) OrderedMap.empty = .ok layouts)
    {name : String} {layout : BitFieldMember} (hget : layouts.get? name = some layout) :
    ∃ member written, members.reverse.find? (Element.isNamed name) = some member ∧
      readLayout beginnings member = .ok (written, layout) := by
  obtain ⟨values, hvalues, hkept⟩ := exists_ofList_of_addMember h
  have hlast : (OrderedMap.ofList values).get? name = some (.layout layout) := by
    rw [← hkept, OrderedMap.get?_mapValues, hget]
    rfl
  rw [OrderedMap.get?_ofList, Option.map_eq_some_iff] at hlast
  obtain ⟨value, hfind, hvalue⟩ := hlast
  obtain ⟨member, hmember, hread⟩ := exists_find?_of_forall₂ (Element.isNamed name)
    (List.rel_reverse (forall₂_of_mapM hvalues)) (fun hread => by
      obtain ⟨layout, hlayout, rfl⟩ := map_eq_ok_iff.mp hread
      simp [Element.isNamed, (isOf_of_readLayout hlayout).1]) hfind
  obtain ⟨read, hlayout, rfl⟩ := map_eq_ok_iff.mp hread
  cases hvalue
  exact ⟨member, read.1, hmember, hlayout⟩

/-- The values in a bit field have the types of their last members. -/
theorem exists_find?_of_addMember {beginnings : OrderedMap String String} {members : List Element}
    {layouts : OrderedMap String BitFieldMember}
    (h : members.foldlM (BitField.addMember beginnings) OrderedMap.empty = .ok layouts)
    {name : String} {layout : BitFieldMember} (hget : layouts.get? name = some layout) :
    ∃ member, members.reverse.find? (Element.isNamed name) = some member ∧
      layout.type.IsOf member := by
  obtain ⟨member, written, hmember, hlayout⟩ := exists_readLayout_of_addMember h hget
  exact ⟨member, hmember, (isOf_of_readLayout hlayout).2⟩

/-- Every type that a structure keeps is of the member that is kept for it. -/
theorem EntryKind.exists_keptMember?_of_read {profile : Profile}
    {beginnings : OrderedMap String String} {kind : EntryKind} {entry : Element}
    {named : String × Entity} (h : kind.read profile beginnings entry = .ok named) :
    ∃ members, profile.emittedMembers entry = .ok members ∧
      ∀ {field type}, named.2.types.get? field = some type →
        ∃ member, kind.keptMember? members field = some member ∧ type.IsOf member := by
  cases kind with
  | bitFlags =>
    obtain ⟨flags, hread, rfl⟩ := map_eq_ok_iff.mp h
    obtain ⟨-, members, hmembers, -⟩ := BitFlags.exists_of_ofElement hread
    exact ⟨members, hmembers, nofun⟩
  | enumeration =>
    obtain ⟨enumeration, hread, rfl⟩ := map_eq_ok_iff.mp h
    obtain ⟨-, members, hmembers, -⟩ := Enumeration.exists_of_ofElement hread
    exact ⟨members, hmembers, nofun⟩
  | bitField =>
    obtain ⟨bitField, hread, rfl⟩ := map_eq_ok_iff.mp h
    obtain ⟨-, members, hmembers, hlayouts⟩ := BitField.exists_of_ofElement hread
    refine ⟨members, hmembers, fun htype => ?_⟩
    rw [Entity.types, OrderedMap.get?_mapValues, Option.map_eq_some_iff] at htype
    obtain ⟨layout, hlayout, rfl⟩ := htype
    exact exists_find?_of_addMember hlayouts hlayout
  | compound =>
    obtain ⟨read, hread, rfl⟩ := map_eq_ok_iff.mp h
    exact exists_find?_of_readFields (Compound.exists_of_ofElement hread).2
  | object =>
    obtain ⟨read, hread, rfl⟩ := map_eq_ok_iff.mp h
    exact exists_find?_of_readFields (NiObject.exists_of_ofElement hread).2.2

end NifBindings
