import NifBindings.Proofs.Model.Reading

/-!
# Colliding names

The structures of a kind are set under their converted names one after the other, and so are the
options and members inside them. A later one replaces an earlier one of the same name, and nothing
is reported. All of them are kept exactly if no two that differ have one name.
-/

namespace NifBindings

/-- What bit flags, an enumeration or a bit field keeps under the name of an option or member. -/
inductive MemberValue where
  | bit (position : Nat)
  | value (number : Int)
  | layout (member : BitFieldMember)
deriving DecidableEq

/-- The name and the number of an option. -/
def readVariant {α : Type} (beginning : Option String) (key : String)
    (read : List Char → Except Text.NumberFault α) (member : Element) :
    Except InputError (String × α) := do
  let value ← readAttribute member key read
  let name ← member.require "name"
  .ok (qualifiedVariant beginning name, value)

/-- The name and the layout of a member of a bit field. -/
def readLayout (beginnings : OrderedMap String String) (member : Element) :
    Except InputError (String × BitFieldMember) := do
  let type ← FieldType.ofAttributes member.tag member.attributes
  let name ← member.require "name"
  let position ← member.require "pos"
  let mask ← member.require "mask"
  let default? := (member.get? "default").map (qualifiedDefault (beginnings.get? type.base))
  .ok (fieldName name, ⟨type, position, mask, default?⟩)

/-- What the members of an entry are read with, if the entry describes bit flags, an enumeration or
a bit field. The members of compounds and objects are fields, which have a rule of their own. -/
def EntryKind.memberReader? (beginnings : OrderedMap String String) (kind : EntryKind)
    (entry : Element) : Option (Element → Except InputError (String × MemberValue)) :=
  match kind with
  | .bitFlags => some fun member =>
    (readVariant (entry.get? "prefix") "bit" (Text.readNat 10 Text.maxNat32) member).map
      (Prod.map id .bit)
  | .enumeration => some fun member =>
    (readVariant (entry.get? "prefix") "value" readOptionValue member).map (Prod.map id .value)
  | .bitField => some fun member => (readLayout beginnings member).map (Prod.map id .layout)
  | .compound => none
  | .object => none

/-- What a structure keeps under the names of its options and members. -/
def Entity.members : Entity → OrderedMap String MemberValue
  | .bitFlags flags => flags.flags.mapValues .bit
  | .enumeration described => described.options.mapValues .value
  | .bitField described => described.members.mapValues .layout
  | .compound _ => .empty
  | .object _ => .empty

/-- Named numbers are the options of all elements, set in order. -/
theorem exists_ofList_of_readVariants {α : Type} (keep : α → MemberValue)
    {beginning : Option String} {key : String} {read : List Char → Except Text.NumberFault α}
    {members : List Element} {variants : OrderedMap String α}
    (h : readVariants beginning key read members = .ok variants) :
    ∃ values, members.mapM (fun member =>
        (readVariant beginning key read member).map (Prod.map id keep)) = .ok values ∧
      variants.mapValues keep = .ofList values := by
  refine OrderedMap.exists_ofList_of_foldlM_set
    (fun variants : OrderedMap String α => variants.mapValues keep) h rfl fun hstep => ?_
  obtain ⟨value, hvalue, hstep⟩ := bind_eq_ok_iff.mp hstep
  obtain ⟨name, hname, hstep⟩ := bind_eq_ok_iff.mp hstep
  cases hstep
  have hvariant : readVariant beginning key read _ = .ok (qualifiedVariant beginning name, value) :=
    bind_eq_ok_iff.mpr ⟨value, hvalue, bind_eq_ok_iff.mpr ⟨name, hname, rfl⟩⟩
  exact ⟨_, map_eq_ok_iff.mpr ⟨_, hvariant, rfl⟩, OrderedMap.mapValues_insert keep _ _ _⟩

/-- The members of a bit field are the layouts of all elements, set in order. -/
theorem exists_ofList_of_addMember {beginnings : OrderedMap String String} {members : List Element}
    {layouts : OrderedMap String BitFieldMember}
    (h : members.foldlM (BitField.addMember beginnings) OrderedMap.empty = .ok layouts) :
    ∃ values, members.mapM (fun member =>
        (readLayout beginnings member).map (Prod.map id MemberValue.layout)) = .ok values ∧
      layouts.mapValues MemberValue.layout = .ofList values := by
  refine OrderedMap.exists_ofList_of_foldlM_set
    (fun layouts : OrderedMap String BitFieldMember => layouts.mapValues MemberValue.layout) h rfl
    fun hstep => ?_
  obtain ⟨type, htype, hstep⟩ := bind_eq_ok_iff.mp hstep
  obtain ⟨name, hname, hstep⟩ := bind_eq_ok_iff.mp hstep
  obtain ⟨position, hposition, hstep⟩ := bind_eq_ok_iff.mp hstep
  obtain ⟨mask, hmask, hstep⟩ := bind_eq_ok_iff.mp hstep
  cases hstep
  have hlayout : readLayout beginnings _ = .ok (fieldName name, _) :=
    bind_eq_ok_iff.mpr ⟨type, htype, bind_eq_ok_iff.mpr ⟨name, hname,
      bind_eq_ok_iff.mpr ⟨position, hposition, bind_eq_ok_iff.mpr ⟨mask, hmask, rfl⟩⟩⟩⟩
  exact ⟨_, map_eq_ok_iff.mpr ⟨_, hlayout, rfl⟩,
    OrderedMap.mapValues_insert MemberValue.layout _ _ _⟩

/-- What a structure keeps of its options and members is what they are read as, set in order. -/
theorem EntryKind.exists_members_of_read {profile : Profile} {beginnings : OrderedMap String String}
    {kind : EntryKind} {entry : Element} {named : String × Entity}
    (h : kind.read profile beginnings entry = .ok named)
    {reader : Element → Except InputError (String × MemberValue)}
    (hreader : kind.memberReader? beginnings entry = some reader) :
    ∃ members values, profile.emittedMembers entry = .ok members ∧
      members.mapM reader = .ok values ∧ named.2.members = .ofList values := by
  cases kind with
  | bitFlags =>
    cases hreader
    obtain ⟨flags, hread, h⟩ := map_eq_ok_iff.mp h
    obtain ⟨-, members, hmembers, hflags⟩ := BitFlags.exists_of_ofElement hread
    obtain ⟨values, hvalues, hkept⟩ := exists_ofList_of_readVariants .bit hflags
    exact ⟨members, values, hmembers, hvalues, by rw [← h]; exact hkept⟩
  | enumeration =>
    cases hreader
    obtain ⟨enumeration, hread, h⟩ := map_eq_ok_iff.mp h
    obtain ⟨-, members, hmembers, hoptions⟩ := Enumeration.exists_of_ofElement hread
    obtain ⟨values, hvalues, hkept⟩ := exists_ofList_of_readVariants .value hoptions
    exact ⟨members, values, hmembers, hvalues, by rw [← h]; exact hkept⟩
  | bitField =>
    cases hreader
    obtain ⟨bitField, hread, h⟩ := map_eq_ok_iff.mp h
    obtain ⟨-, members, hmembers, hlayouts⟩ := BitField.exists_of_ofElement hread
    obtain ⟨values, hvalues, hkept⟩ := exists_ofList_of_addMember hlayouts
    exact ⟨members, values, hmembers, hvalues, by rw [← h]; exact hkept⟩
  | compound => cases hreader
  | object => cases hreader

namespace Model

/-- Emitted declarations are kept exactly if none of their names collide. The structures of each
kind are the emitted entries of that kind, read one by one: each entry is read, its structure has
the converted name of the entry, and all these structures are stored under their names exactly if no
two that differ have one name. In the same way a structure with options or members keeps all of
them, under their converted names and with their own bits, values and layouts, exactly if no two of
its entry that differ have one name. -/
theorem holdsAll_iff_consistent {profile : Profile} {document : Document} {model : Model}
    (h : ofDocument profile document = .ok model) :
    ∃ entries, filterEmitted profile.emitsEntry document.entries = .ok entries ∧
      ∀ kind : EntryKind,
        (∃ declared,
          (entries.filter (profile.declares kind)).mapM (kind.read profile model.beginnings) =
              .ok declared ∧
            ((model.entities kind).HoldsAll declared ↔ Consistent declared)) ∧
        ∀ entry ∈ entries, profile.declares kind entry = true →
          ∃ name entity written, kind.read profile model.beginnings entry = .ok (name, entity) ∧
            entry.get? "name" = some written ∧ name = kind.storedName written ∧
            ∀ reader ∈ kind.memberReader? model.beginnings entry,
              ∃ members values, profile.emittedMembers entry = .ok members ∧
                members.mapM reader = .ok values ∧
                (entity.members.HoldsAll values ↔ Consistent values) := by
  obtain ⟨entries, hentries, hkinds⟩ := exists_declared h
  refine ⟨entries, hentries, fun kind => ?_⟩
  obtain ⟨declared, hdeclared, hstored⟩ := hkinds kind
  refine ⟨⟨declared, hdeclared, by rw [hstored, OrderedMap.holdsAll_ofList_iff]⟩, ?_⟩
  intro entry hentry hdeclares
  obtain ⟨⟨name, entity⟩, hread⟩ :=
    exists_ok_of_mapM hdeclared (List.mem_filter.mpr ⟨hentry, hdeclares⟩)
  obtain ⟨written, hwritten, hname⟩ := EntryKind.name_of_read hread
  refine ⟨name, entity, written, hread, hwritten, hname, fun reader hreader => ?_⟩
  obtain ⟨members, values, hmembers, hvalues, hkept⟩ :=
    EntryKind.exists_members_of_read hread hreader
  exact ⟨members, values, hmembers, hvalues, by rw [hkept, OrderedMap.holdsAll_ofList_iff]⟩

/-- An option of an enumeration. -/
def optionElement (name value : String) : Element where
  tag := "option"
  attributes := .ofList [("name", name), ("value", value)]
  text := ""
  children := []

/-- An enumeration with two options. -/
def fogElement (first second : String) : Element where
  tag := "enum"
  attributes := .ofList [("name", "FogMode"), ("storage", "uint"), ("prefix", "FOG")]
  text := ""
  children := [optionElement first "0", optionElement second "1"]

/-- An enumeration whose options have distinct names is stored with both of them. -/
theorem holdsAll_iff_consistent_fogElement :
    ∃ model entity, ofDocument .default ⟨none, [fogElement "Z Linear" "Z Squared"]⟩ = .ok model ∧
      (model.entities .enumeration).get? "FogMode" = some entity ∧
      entity.members.get? "FOG_ZLinear" = some (.value 0) ∧
      entity.members.get? "FOG_ZSquared" = some (.value 1) := by
  let entry := fogElement "Z Linear" "Z Squared"
  have hemits : Profile.default.emitsEntry entry.attributes = .ok true := by decide +kernel
  have hdeclares : Profile.default.declares .enumeration entry = true := by decide +kernel
  have hvalues : (Profile.default.emittedMembers entry >>= fun members =>
      members.mapM fun member => (readVariant (entry.get? "prefix") "value" readOptionValue
        member).map (Prod.map id MemberValue.value)) =
      .ok [("FOG_ZLinear", .value 0), ("FOG_ZSquared", .value 1)] := by
    decide +kernel
  cases hmodel : ofDocument .default ⟨none, [entry]⟩ with
  | error error =>
    have hok : (ofDocument .default ⟨none, [entry]⟩).toBool = true := by decide +kernel
    rw [hmodel] at hok
    cases hok
  | ok model =>
    obtain ⟨entries, hentries, hkinds⟩ := holdsAll_iff_consistent hmodel
    rw [filterEmitted_singleton hemits] at hentries
    cases hentries
    obtain ⟨⟨declared, hdeclared, hstored⟩, hmembers⟩ := hkinds .enumeration
    obtain ⟨name, entity, written, hread, hwritten, hname, hkept⟩ :=
      hmembers entry (List.mem_singleton_self entry) hdeclares
    rw [List.filter_cons_of_pos hdeclares, List.filter_nil, List.mapM_cons, hread] at hdeclared
    cases hdeclared
    cases hwritten
    obtain rfl : name = "FogMode" := hname
    have hentity := hstored.mpr (consistent_of_nodup (List.nodup_singleton "FogMode")) _
      (List.mem_singleton_self ("FogMode", entity))
    obtain ⟨members, values, hemitted, hoptions, hall⟩ := hkept _ rfl
    rw [hemitted] at hvalues
    cases hoptions.symm.trans hvalues
    have hholds := hall.mpr (consistent_of_nodup (by decide))
    exact ⟨model, entity, rfl, hentity, hholds _ List.mem_cons_self,
      hholds _ (List.mem_cons_of_mem _ (List.mem_singleton_self _))⟩

/-- An enumeration with two options whose converted names are the same. -/
def collidingEntry : Element := fogElement "Z Linear" "ZLinear"

/-- The first of two options of one converted name is lost, and nothing is reported. -/
theorem not_holdsAll_collidingEntry :
    ∃ model enumeration, ofDocument .default ⟨none, [collidingEntry]⟩ = .ok model ∧
      model.diagnostics = [] ∧ Profile.default.emitsEntry collidingEntry.attributes = .ok true ∧
      model.enumerations.get? "FogMode" = some enumeration ∧
      (∃ members values, Profile.default.emittedMembers collidingEntry = .ok members ∧
        members.mapM (readVariant (collidingEntry.get? "prefix") "value" readOptionValue) =
            .ok values ∧
          ("FOG_ZLinear", 0) ∈ values) ∧
      enumeration.options.get? "FOG_ZLinear" = some 1 := by
  have hview : (ofDocument .default ⟨none, [collidingEntry]⟩).toOption.map (fun model =>
      (model.diagnostics, (model.enumerations.get? "FogMode").map (·.options.get? "FOG_ZLinear"))) =
      some ([], some (some 1)) := by
    decide +kernel
  have hvalues : (Profile.default.emittedMembers collidingEntry >>= fun members =>
      members.mapM (readVariant (collidingEntry.get? "prefix") "value" readOptionValue)) =
      .ok [("FOG_ZLinear", 0), ("FOG_ZLinear", 1)] := by
    decide +kernel
  obtain ⟨members, hmembers, hvalues⟩ := bind_eq_ok_iff.mp hvalues
  cases hmodel : ofDocument .default ⟨none, [collidingEntry]⟩ with
  | error error =>
    rw [hmodel] at hview
    cases hview
  | ok model =>
    simp only [hmodel, Except.toOption, Option.map_some, Option.some.injEq, Prod.mk.injEq,
      Option.map_eq_some_iff] at hview
    obtain ⟨hnone, enumeration, henumeration, hlast⟩ := hview
    exact ⟨model, enumeration, rfl, hnone, by decide +kernel, henumeration,
      ⟨members, _, hmembers, hvalues, by simp⟩, hlast⟩

end Model

end NifBindings
