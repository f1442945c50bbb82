import NifBindings.Proofs.Model.Keeping

/-!
# Defaults of values in bit fields

The default of a value in a bit field is written as the name of an option, and stored with what the
names of the enumeration begin with. The option itself is stored under its converted name behind the
same beginning, if that is the one that is found for the type of the value. So the stored default is
the stored name of the option exactly if the conversion leaves the written name as it is and the
beginning is found.
-/

namespace NifBindings

section Filter

variable {α : Type} {keeps : α → Bool} {mark : α} {front other list : List α}

/-- A list does not end in a kept element with all that is kept of the list behind it. -/
theorem ne_append_cons_filter (hmark : keeps mark = true) :
    list ≠ front ++ mark :: list.filter keeps := by
  intro h
  have hkept : (list.filter keeps).length =
      ((front ++ mark :: list.filter keeps).filter keeps).length := by
    rw [← h]
  have htwice : (list.filter keeps).filter keeps = list.filter keeps := by simp
  rw [List.filter_append, List.filter_cons_of_pos hmark, htwice, List.length_append,
    List.length_cons] at hkept
  omega

/-- What is kept of a list does not end in an element with the whole list behind it. -/
theorem filter_ne_append_cons : list.filter keeps ≠ front ++ mark :: list := by
  intro h
  have hlength := congrArg List.length h
  have hle := List.length_filter_le keeps list
  simp only [List.length_append, List.length_cons] at hlength
  omega

/-- A list and what is kept of it are told apart behind a kept element, whatever stands before
that. -/
theorem append_cons_filter_iff (hmark : keeps mark = true) :
    front ++ mark :: list = other ++ mark :: list.filter keeps ↔
      front = other ∧ list.filter keeps = list := by
  constructor
  · intro h
    rcases append_cons_cases h with ⟨hfront, -, hlist⟩ | ⟨more, -, hlist⟩ | ⟨more, -, hlist⟩
    · exact ⟨hfront, hlist.symm⟩
    · exact absurd hlist (ne_append_cons_filter hmark)
    · exact absurd hlist filter_ne_append_cons
  · rintro ⟨rfl, hlist⟩
    rw [hlist]

end Filter

/-- Whether a character stays in the converted name of an option. -/
def isVariantChar (c : Char) : Bool :=
  c != ' ' && c != ':'

/-- A qualified default is a qualified name exactly if both begin with the same and the conversion
of names leaves the default as it is. -/
theorem qualifiedDefault_eq_qualifiedVariant_iff {found declared : Option String}
    {written : String} :
    qualifiedDefault found written = qualifiedVariant declared written ↔
      found = declared ∧ variantName written = written := by
  have hmark : isVariantChar '_' = true := by decide
  have hvariant : (variantName written).toList = written.toList.filter isVariantChar := by
    rw [variantName, String.toList_ofList]
    rfl
  have hbehind (text name : String) :
      (text ++ "_" ++ name).toList = text.toList ++ '_' :: name.toList := by simp
  unfold qualifiedDefault qualifiedVariant
  cases found with
  | none =>
    cases declared with
    | none => simp [eq_comm]
    | some own =>
      rw [← String.toList_inj, hbehind, hvariant]
      exact iff_of_false (ne_append_cons_filter hmark) nofun
  | some text =>
    cases declared with
    | none =>
      rw [← String.toList_inj, hbehind, hvariant]
      exact iff_of_false filter_ne_append_cons.symm nofun
    | some own =>
      rw [Option.some.injEq, ← String.toList_inj, ← String.toList_inj, ← String.toList_inj,
        hbehind, hbehind, hvariant]
      exact append_cons_filter_iff hmark

/-- What the names of an enumeration begin with is what its entry declares. -/
theorem Enumeration.beginning_of_ofElement {profile : Profile} {entry : Element}
    {enumeration : Enumeration} (h : ofElement profile entry = .ok enumeration) :
    enumeration.beginning = entry.get? "prefix" := by
  obtain ⟨members, -, h⟩ := bind_eq_ok_iff.mp h
  obtain ⟨options, -, h⟩ := bind_eq_ok_iff.mp h
  obtain ⟨name, -, h⟩ := bind_eq_ok_iff.mp h
  obtain ⟨storage, -, h⟩ := bind_eq_ok_iff.mp h
  cases h
  rfl

/-- Every option of an entry is stored under its qualified name. -/
theorem Enumeration.contains_of_ofElement {profile : Profile} {entry option : Element}
    {enumeration : Enumeration} {members : List Element} {written : String}
    (h : ofElement profile entry = .ok enumeration)
    (hmembers : profile.emittedMembers entry = .ok members) (hoption : option ∈ members)
    (hwritten : option.get? "name" = some written) :
    enumeration.options.contains (qualifiedVariant (entry.get? "prefix") written) = true := by
  obtain ⟨-, emitted, hemitted, hread⟩ := exists_of_ofElement h
  cases hmembers.symm.trans hemitted
  obtain ⟨values, hvalues, hoptions⟩ := exists_ofList_of_readVariants .value hread
  obtain ⟨named, hnamed, hmapped⟩ := exists_mem_of_mapM hvalues hoption
  obtain ⟨variant, hvariant, rfl⟩ := map_eq_ok_iff.mp hmapped
  obtain ⟨number, -, hvariant⟩ := bind_eq_ok_iff.mp hvariant
  obtain ⟨name, hname, hvariant⟩ := bind_eq_ok_iff.mp hvariant
  cases hvariant
  cases (Element.require_eq_ok_iff.mp hname).symm.trans hwritten
  obtain ⟨value, hvalue, -⟩ := OrderedMap.exists_get?_ofList hnamed
  rw [← hoptions, OrderedMap.get?_mapValues, Option.map_eq_some_iff] at hvalue
  obtain ⟨stored, hstored, -⟩ := hvalue
  exact Option.isSome_of_eq_some hstored

/-- The default of a value is what its member says, qualified by what is found under the converted
name of its type. -/
theorem default?_of_readLayout {beginnings : OrderedMap String String} {member : Element}
    {name written : String} {layout : BitFieldMember}
    (h : readLayout beginnings member = .ok (name, layout))
    (hwritten : member.get? "type" = some written) :
    layout.default? =
      (member.get? "default").map (qualifiedDefault (beginnings.get? (typeName written))) := by
  obtain ⟨type, htype, h⟩ := bind_eq_ok_iff.mp h
  obtain ⟨name, -, h⟩ := bind_eq_ok_iff.mp h
  obtain ⟨position, -, h⟩ := bind_eq_ok_iff.mp h
  obtain ⟨mask, -, h⟩ := bind_eq_ok_iff.mp h
  cases h
  obtain ⟨base, hbase, htypeName⟩ := (FieldType.isOf_of_ofAttributes htype).base
  cases hbase.symm.trans hwritten
  rw [htypeName]

/-- What is found under a name is what the names of the enumeration of that name begin with. -/
theorem Variants.get?_beginnings {variants : Variants}
    (hnames : ∀ named ∈ variants.enumerations.entries, named.2.name = named.1) (name : String) :
    variants.beginnings.get? name =
      (variants.enumerations.get? name).bind Enumeration.beginning := by
  have hlisted {text : String} (h : (name, text) ∈ variants.enumerations.values.filterMap
      fun enumeration => enumeration.beginning.map fun text => (enumeration.name, text)) :
      (variants.enumerations.get? name).bind Enumeration.beginning = some text := by
    obtain ⟨enumeration, hmem, hpair⟩ := List.mem_filterMap.mp h
    obtain ⟨⟨key, enumeration⟩, hentry, rfl⟩ := List.mem_map.mp hmem
    obtain ⟨beginning, hbeginning, hpair⟩ := Option.map_eq_some_iff.mp hpair
    cases hpair
    rw [hnames _ hentry, OrderedMap.get?_eq_some_iff.mpr hentry]
    exact hbeginning
  refine Option.ext fun text => ⟨fun h => ?_, fun h => ?_⟩
  · exact hlisted (OrderedMap.mem_of_mem_ofList (OrderedMap.get?_eq_some_iff.mp h))
  · obtain ⟨enumeration, hget, hbeginning⟩ := Option.bind_eq_some_iff.mp h
    have hentry := OrderedMap.get?_eq_some_iff.mp hget
    have hmem : (name, text) ∈ variants.enumerations.values.filterMap fun enumeration =>
        enumeration.beginning.map fun text => (enumeration.name, text) := by
      refine List.mem_filterMap.mpr ⟨enumeration, List.mem_map.mpr ⟨_, hentry, rfl⟩, ?_⟩
      rw [hbeginning, hnames _ hentry]
      rfl
    obtain ⟨found, hfound, hpair⟩ := OrderedMap.exists_get?_ofList hmem
    cases h.symm.trans (hlisted hpair)
    exact hfound

namespace Model

/-- Whether a value of a stored bit field is the layout of one of the members of some entries. -/
def KeepsLayout (profile : Profile) (model : Model) (entries : List Element) (member : Element)
    (layout : BitFieldMember) : Prop :=
  ∃ entry bitField members field, entry ∈ entries ∧ profile.declares .bitField entry = true ∧
    BitField.ofElement profile model.beginnings entry = .ok bitField ∧
    model.bitFields.get? bitField.name = some bitField ∧
    bitField.members.get? field = some layout ∧ profile.emittedMembers entry = .ok members ∧
    EntryKind.bitField.keptMember? members field = some member

variable {profile : Profile} {document : Document} {model : Model}

/-- A value of a stored bit field is the layout that its member is read as. -/
theorem KeepsLayout.exists_readLayout {entries : List Element} {member : Element}
    {layout : BitFieldMember} (h : model.KeepsLayout profile entries member layout) :
    ∃ name, readLayout model.beginnings member = .ok (name, layout) := by
  obtain ⟨entry, bitField, members, field, -, -, hread, -, hlayout, hmembers, hmember⟩ := h
  obtain ⟨-, emitted, hemitted, hlayouts⟩ := BitField.exists_of_ofElement hread
  cases hmembers.symm.trans hemitted
  obtain ⟨kept, name, hkept, hname⟩ := exists_readLayout_of_addMember hlayouts hlayout
  cases hmember.symm.trans hkept
  exact ⟨name, hname⟩

/-- What a model finds under a name is what the names of the enumeration stored there begin with. -/
theorem get?_beginnings (h : ofDocument profile document = .ok model) (name : String) :
    model.beginnings.get? name = (model.enumerations.get? name).bind Enumeration.beginning := by
  refine Variants.get?_beginnings (fun named hnamed => ?_) name
  have hentity : (named.1, Entity.enumeration named.2) ∈ (model.entities .enumeration).entries :=
    List.mem_map.mpr ⟨named, hnamed, rfl⟩
  obtain ⟨entry, -, hread⟩ := exists_entry_of_mem h hentity
  obtain ⟨enumeration, -, hsame⟩ := map_eq_ok_iff.mp hread
  obtain ⟨hname, hvalue⟩ := Prod.mk.inj hsame
  cases hvalue
  exact hname

/-- Every value of a stored bit field is the layout of a member of an emitted entry. -/
theorem exists_keepsLayout {entries : List Element} {declared : List (String × Entity)}
    (hdeclared : (entries.filter (profile.declares .bitField)).mapM
      (EntryKind.bitField.read profile model.beginnings) = .ok declared)
    (hstored : model.entities .bitField = .ofList declared) {bitField : BitField}
    (hmem : bitField ∈ model.bitFields.values) {field : String} {layout : BitFieldMember}
    (hlayout : bitField.members.get? field = some layout) :
    ∃ member, model.KeepsLayout profile entries member layout := by
  obtain ⟨⟨name, bitField⟩, hget, rfl⟩ := List.mem_map.mp hmem
  have hentity : (name, Entity.bitField bitField) ∈ (model.entities .bitField).entries :=
    List.mem_map.mpr ⟨_, hget, rfl⟩
  obtain ⟨entry, hentry, hdeclares, hnamed⟩ := exists_emitted_of_mem hdeclared hstored hentity
  obtain ⟨described, hread, hsame⟩ := map_eq_ok_iff.mp hnamed
  cases hsame
  obtain ⟨-, members, hmembers, hlayouts⟩ := BitField.exists_of_ofElement hread
  obtain ⟨member, -, hmember, -⟩ := exists_readLayout_of_addMember hlayouts hlayout
  exact ⟨member, entry, _, members, field, hentry, hdeclares, hread,
    OrderedMap.get?_eq_some_iff.mpr hget, hlayout, hmembers, hmember⟩

/-- The stored default of a value in a bit field is the name under which the option is stored that
it names exactly if the conversion of names leaves it as it is, and what is found under the
converted name of the enumeration is what the names of this one begin with. The latter holds if the
enumeration is stored under its converted name. -/
theorem default_eq_qualifiedVariant_iff (h : ofDocument profile document = .ok model) :
    ∃ entries, filterEmitted profile.emitsEntry document.entries = .ok entries ∧
      (∀ bitField ∈ model.bitFields.values, ∀ field layout,
        bitField.members.get? field = some layout →
          ∃ member, model.KeepsLayout profile entries member layout) ∧
      ∀ entry ∈ entries, profile.declares .enumeration entry = true →
        ∃ enumeration options, Enumeration.ofElement profile entry = .ok enumeration ∧
          profile.emittedMembers entry = .ok options ∧
          ∀ option ∈ options, ∀ written, option.get? "name" = some written →
            ∀ member layout, model.KeepsLayout profile entries member layout →
              member.get? "type" = some enumeration.name →
              member.get? "default" = some written → ∃ default,
                layout.default? = some default ∧
                enumeration.options.contains
                  (qualifiedVariant (entry.get? "prefix") written) = true ∧
                (default = qualifiedVariant (entry.get? "prefix") written ↔
                  variantName written = written ∧
                    (model.enumerations.get? (typeName enumeration.name)).bind
                      Enumeration.beginning = entry.get? "prefix") ∧
                (model.enumerations.get? (typeName enumeration.name) = some enumeration →
                  (default = qualifiedVariant (entry.get? "prefix") written ↔
                    variantName written = written)) := by
  obtain ⟨entries, hentries, hkinds⟩ := exists_declared h
  refine ⟨entries, hentries, fun bitField hmem field layout hlayout => ?_,
    fun entry hentry hdeclares => ?_⟩
  · obtain ⟨declared, hdeclared, hstored⟩ := hkinds .bitField
    exact exists_keepsLayout hdeclared hstored hmem hlayout
  obtain ⟨declared, hdeclared, -⟩ := hkinds .enumeration
  obtain ⟨named, hnamed⟩ :=
    exists_ok_of_mapM hdeclared (List.mem_filter.mpr ⟨hentry, hdeclares⟩)
  obtain ⟨enumeration, hread, -⟩ := map_eq_ok_iff.mp hnamed
  obtain ⟨-, options, hoptions, -⟩ := Enumeration.exists_of_ofElement hread
  refine ⟨enumeration, options, hread, hoptions, fun option hoption written hwritten member layout
    hkeeps htype hdefault => ?_⟩
  obtain ⟨name, hlayout⟩ := hkeeps.exists_readLayout
  have hbeginning := Enumeration.beginning_of_ofElement hread
  have hdefault? := default?_of_readLayout hlayout htype
  rw [hdefault, get?_beginnings h] at hdefault?
  refine ⟨_, hdefault?, Enumeration.contains_of_ofElement hread hoptions hoption hwritten, ?_,
    fun hstored => ?_⟩
  · rw [qualifiedDefault_eq_qualifiedVariant_iff, and_comm]
  · rw [qualifiedDefault_eq_qualifiedVariant_iff, hstored, Option.bind_some]
    exact and_iff_right hbeginning

/-- A value whose type is an enumeration and which has a default. -/
def modeElement (written : String) : Element where
  tag := "member"
  attributes := .ofList [("name", "Mode"), ("type", "FogMode"), ("pos", "0"), ("mask", "0x1"),
    ("default", written)]
  text := ""
  children := []

/-- A bit field with one value. -/
def modeFlagsElement (written : String) : Element where
  tag := "bitfield"
  attributes := .ofList [("name", "FogFlags"), ("storage", "ushort")]
  text := ""
  children := [modeElement written]

/-- An enumeration with two options, and a bit field with the first of them as a default. -/
def modeDocument (first second : String) : Document :=
  ⟨none, [fogElement first second, modeFlagsElement first]⟩

/-- A default without spaces and colons is the name of its option. -/
theorem default_eq_qualifiedVariant_iff_linear :
    ∃ model bitField layout, ofDocument .default (modeDocument "Linear" "Squared") = .ok model ∧
      model.bitFields.get? "FogFlags" = some bitField ∧
      bitField.members.get? "mode" = some layout ∧ layout.default? = some "FOG_Linear" := by
  have hview : (ofDocument .default (modeDocument "Linear" "Squared")).toOption.map (fun model =>
      ((model.bitFields.get? "FogFlags").map fun bitField =>
        (bitField.members.get? "mode").isSome,
        (model.enumerations.get? (typeName "FogMode")).bind Enumeration.beginning)) =
      some (some true, some "FOG") := by
    decide +kernel
  have hemitted : filterEmitted Profile.default.emitsEntry
      (modeDocument "Linear" "Squared").entries =
        .ok [fogElement "Linear" "Squared", modeFlagsElement "Linear"] :=
    filterEmitted_eq_self (by decide +kernel)
  have hmode : Profile.default.emittedMembers (modeFlagsElement "Linear") =
      .ok [modeElement "Linear"] :=
    filterEmitted_eq_self (by decide +kernel)
  have hoptions : Profile.default.emittedMembers (fogElement "Linear" "Squared") =
      .ok [optionElement "Linear" "0", optionElement "Squared" "1"] :=
    filterEmitted_eq_self (by decide +kernel)
  cases hmodel : ofDocument .default (modeDocument "Linear" "Squared") with
  | error error =>
    rw [hmodel] at hview
    cases hview
  | ok model =>
    simp only [hmodel, Except.toOption, Option.map_some, Option.some.injEq, Prod.mk.injEq,
      Option.map_eq_some_iff, Option.isSome_iff_exists] at hview
    obtain ⟨⟨bitField, hbitField, layout, hlayout⟩, hbeginning⟩ := hview
    obtain ⟨entries, hentries, hkept, hdefaults⟩ := default_eq_qualifiedVariant_iff hmodel
    cases hemitted.symm.trans hentries
    obtain ⟨member, hkeeps⟩ := hkept bitField
      (List.mem_map.mpr ⟨_, OrderedMap.get?_eq_some_iff.mp hbitField, rfl⟩) "mode" layout hlayout
    obtain ⟨enumeration, options, hread, hmembers, hall⟩ :=
      hdefaults (fogElement "Linear" "Squared") List.mem_cons_self (by decide +kernel)
    cases hoptions.symm.trans hmembers
    have hname : some "FogMode" = some enumeration.name := (Enumeration.exists_of_ofElement hread).1
    rw [Option.some.injEq] at hname
    have hsource : member = modeElement "Linear" := by
      obtain ⟨entry, described, members, field, hentry, hdeclares, -, -, -, hmembers, hmember⟩ :=
        hkeeps
      have hmem := EntryKind.mem_of_keptMember? hmember
      rcases List.mem_pair.mp hentry with rfl | rfl
      · exact absurd hdeclares (by decide +kernel)
      · cases hmode.symm.trans hmembers
        exact List.mem_singleton.mp hmem
    rw [hsource] at hkeeps
    obtain ⟨default, hdefault, -, hiff, -⟩ := hall (optionElement "Linear" "0") List.mem_cons_self
      "Linear" (by decide +kernel) (modeElement "Linear") layout hkeeps
      (by rw [← hname]; decide +kernel) (by decide +kernel)
    rw [← hname, hbeginning] at hiff
    refine ⟨model, bitField, layout, rfl, hbitField, hlayout, ?_⟩
    rw [hdefault, hiff.mpr (by decide +kernel)]
    decide +kernel

/-- A default with a space is stored with the space, and the option that it names without it. -/
theorem default_ne_qualifiedVariant_spaced :
    ∃ model bitField layout enumeration,
      ofDocument .default (modeDocument "Z Linear" "Z Squared") = .ok model ∧
      Profile.default.emitsEntry (fogElement "Z Linear" "Z Squared").attributes = .ok true ∧
      model.enumerations.get? "FogMode" = some enumeration ∧
      enumeration.options.keys = ["FOG_ZLinear", "FOG_ZSquared"] ∧
      model.bitFields.get? "FogFlags" = some bitField ∧
      bitField.members.get? "mode" = some layout ∧
      (modeElement "Z Linear").get? "type" = some "FogMode" ∧
      (modeElement "Z Linear").get? "default" = some "Z Linear" ∧
      (optionElement "Z Linear" "0").get? "name" = some "Z Linear" ∧
      layout.default? = some "FOG_Z Linear" := by
  have hview :
      (ofDocument .default (modeDocument "Z Linear" "Z Squared")).toOption.map (fun model =>
        ((model.enumerations.get? "FogMode").map fun enumeration => enumeration.options.keys,
          (model.bitFields.get? "FogFlags").map fun bitField =>
            (bitField.members.get? "mode").map BitFieldMember.default?)) =
        some (some ["FOG_ZLinear", "FOG_ZSquared"], some (some (some "FOG_Z Linear"))) := by
    decide +kernel
  cases hmodel : ofDocument .default (modeDocument "Z Linear" "Z Squared") with
  | error error =>
    rw [hmodel] at hview
    cases hview
  | ok model =>
    simp only [hmodel, Except.toOption, Option.map_some, Option.some.injEq, Prod.mk.injEq,
      Option.map_eq_some_iff] at hview
    obtain ⟨⟨enumeration, henumeration, hkeys⟩, bitField, hbitField, layout, hlayout, hdefault⟩ :=
      hview
    exact ⟨model, bitField, layout, enumeration, rfl, by decide +kernel, henumeration, hkeys,
      hbitField, hlayout, by decide +kernel, by decide +kernel, by decide +kernel, hdefault⟩

end Model

end NifBindings
