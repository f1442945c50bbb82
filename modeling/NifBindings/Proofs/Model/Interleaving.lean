import NifBindings.Proofs.Model.Collision
import NifBindings.Proofs.Model.Findings

/-!
# Interleaved entries

The order of a document counts within each kind of entry alone. Every map is made from the entries
of one kind, and an entry of one kind is read without those of the others, but for the beginnings of
names, which are known before any bit field is read. So documents that interleave the same kinds in
different ways give the same model, and report the same in another order.
-/

namespace NifBindings

/-- Whether an entry is of a kind. -/
def Element.isOfKind (kind : EntryKind) (entry : Element) : Bool :=
  EntryKind.ofTag? entry.tag = some kind

/-- Whether two lists have the same entries, and those of each kind in the same order. -/
structure Interleaved (as bs : List Element) : Prop where
  perm : as.Perm bs
  kinds : ∀ kind, as.filter (Element.isOfKind kind) = bs.filter (Element.isOfKind kind)

namespace Interleaved

variable {as bs : List Element}

/-- Either of two interleavings can come first. -/
theorem symm (h : Interleaved as bs) : Interleaved bs as :=
  ⟨h.perm.symm, fun kind => (h.kinds kind).symm⟩

/-- Entries that are chosen one by one are interleaved as all of them are. -/
theorem filter (h : Interleaved as bs) (chosen : Element → Bool) :
    Interleaved (as.filter chosen) (bs.filter chosen) := by
  refine ⟨h.perm.filter chosen, fun kind => ?_⟩
  rw [List.filter_comm, h.kinds, List.filter_comm]

/-- Entries of one kind that are chosen one by one stand in the same order. -/
theorem filter_declares (h : Interleaved as bs) (profile : Profile) (kind : EntryKind) :
    as.filter (profile.declares kind) = bs.filter (profile.declares kind) := by
  have hkind (entries : List Element) : entries.filter (profile.declares kind) =
      (entries.filter (Element.isOfKind kind)).filter (profile.declares kind) := by
    rw [List.filter_filter]
    apply List.filter_congr
    intro entry _
    cases htag : EntryKind.ofTag? entry.tag == some kind <;>
      simp_all [Profile.declares, Element.isOfKind]
  rw [hkind as, h.kinds, ← hkind bs]

end Interleaved

section Readable

variable {profile : Profile} {beginnings : OrderedMap String String}

/-- Bit flags and enumerations are added exactly if they can be read, whatever was added before. -/
theorem Variants.exists_addEntry_iff (beginnings : OrderedMap String String) (variants : Variants)
    (entry : Element) :
    (∃ next, addEntry profile variants entry = .ok next) ↔
      ∀ kind ∈ [EntryKind.bitFlags, .enumeration], profile.declares kind entry = true →
        ∃ named, kind.read profile beginnings entry = .ok named := by
  constructor
  · rintro ⟨next, hnext⟩ kind hkind hdeclares
    have hadd := entities_addEntry beginnings hkind hnext
    rw [if_pos hdeclares] at hadd
    obtain ⟨named, hnamed, -⟩ := hadd
    exact ⟨named, hnamed⟩
  · intro hread
    unfold addEntry
    split
    next htag =>
      obtain ⟨named, hnamed⟩ := hread .bitFlags (by simp) (by simp [Profile.declares, htag])
      obtain ⟨flags, hflags, -⟩ := map_eq_ok_iff.mp hnamed
      exact ⟨_, bind_eq_ok_iff.mpr ⟨flags, hflags, rfl⟩⟩
    next htag =>
      obtain ⟨named, hnamed⟩ := hread .enumeration (by simp) (by simp [Profile.declares, htag])
      obtain ⟨enumeration, henumeration, -⟩ := map_eq_ok_iff.mp hnamed
      exact ⟨_, bind_eq_ok_iff.mpr ⟨enumeration, henumeration, rfl⟩⟩
    next => exact ⟨variants, rfl⟩

/-- Bit fields, compounds and objects are added exactly if they can be read, whatever was added
before. -/
theorem Structures.exists_addEntry_iff (structures : Structures) (entry : Element) :
    (∃ next, addEntry profile beginnings structures entry = .ok next) ↔
      ∀ kind ∈ [EntryKind.bitField, .compound, .object], profile.declares kind entry = true →
        ∃ named, kind.read profile beginnings entry = .ok named := by
  constructor
  · rintro ⟨next, hnext⟩ kind hkind hdeclares
    have hadd := entities_addEntry hkind hnext
    rw [if_pos hdeclares] at hadd
    obtain ⟨named, hnamed, -⟩ := hadd
    exact ⟨named, hnamed⟩
  · intro hread
    unfold addEntry
    split
    next htag =>
      obtain ⟨named, hnamed⟩ := hread .bitField (by simp) (by simp [Profile.declares, htag])
      obtain ⟨bitField, hbitField, -⟩ := map_eq_ok_iff.mp hnamed
      exact ⟨_, bind_eq_ok_iff.mpr ⟨bitField, hbitField, rfl⟩⟩
    next htag =>
      obtain ⟨named, hnamed⟩ := hread .compound (by simp) (by simp [Profile.declares, htag])
      obtain ⟨⟨compound, findings⟩, hcompound, -⟩ := map_eq_ok_iff.mp hnamed
      exact ⟨_, bind_eq_ok_iff.mpr ⟨(compound, findings), hcompound, rfl⟩⟩
    next htag =>
      split
      next => exact ⟨structures, rfl⟩
      next hroot =>
        obtain ⟨named, hnamed⟩ := hread .object (by simp) (by simp [Profile.declares, htag, hroot])
        obtain ⟨⟨object, findings⟩, hobject, -⟩ := map_eq_ok_iff.mp hnamed
        exact ⟨_, bind_eq_ok_iff.mpr ⟨(object, findings), hobject, rfl⟩⟩
    next => exact ⟨structures, rfl⟩

end Readable

/-- Whether bit fields, compounds and objects are the same, with the same findings in some order. -/
structure Structures.SameUpToOrder (a b : Structures) : Prop where
  bitFields : a.bitFields = b.bitFields
  compounds : a.compounds = b.compounds
  objects : a.objects = b.objects
  diagnostics : a.diagnostics.Perm b.diagnostics

/-- Whether two models are the same, with the same findings in some order. -/
structure Model.SameUpToOrder (a b : Model) : Prop
    extends a.toStructures.SameUpToOrder b.toStructures where
  version : a.version = b.version
  bitFlags : a.bitFlags = b.bitFlags
  enumerations : a.enumerations = b.enumerations
  hierarchy : a.hierarchy = b.hierarchy

namespace Interleaved

variable {profile : Profile} {beginnings : OrderedMap String String} {as bs : List Element}

/-- Interleaved entries describe the same bit flags and enumerations. -/
theorem variants_eq {first second : Variants} (h : Interleaved as bs)
    (has : as.foldlM (Variants.addEntry profile) {} = .ok first)
    (hbs : bs.foldlM (Variants.addEntry profile) {} = .ok second) : first = second := by
  have hentities (kind : EntryKind) (hkind : kind ∈ [.bitFlags, .enumeration]) :
      first.entities kind = second.entities kind :=
    view_eq_of_foldlM (fun variants : Variants => variants.entities kind)
      (fun map (named : String × Entity) => map.insert named.1 named.2)
      (h.filter_declares profile kind) has hbs (Variants.entities_addEntry .empty hkind)
  have hflags : first.bitFlags = second.bitFlags :=
    OrderedMap.mapValues_injective (fun _ _ => Entity.bitFlags.inj) (hentities .bitFlags (by simp))
  have henumerations : first.enumerations = second.enumerations :=
    OrderedMap.mapValues_injective (fun _ _ => Entity.enumeration.inj)
      (hentities .enumeration (by simp))
  cases first
  cases second
  cases hflags
  cases henumerations
  rfl

/-- Interleaved entries describe the same bit fields, compounds and objects, and give the same
findings in some order. -/
theorem structures_sameUpToOrder {first second : Structures} (h : Interleaved as bs)
    (has : as.foldlM (Structures.addEntry profile beginnings) {} = .ok first)
    (hbs : bs.foldlM (Structures.addEntry profile beginnings) {} = .ok second) :
    first.SameUpToOrder second := by
  have hentities (kind : EntryKind) (hkind : kind ∈ [.bitField, .compound, .object]) :
      first.entities kind = second.entities kind :=
    view_eq_of_foldlM (fun structures : Structures => structures.entities kind)
      (fun map (named : String × Entity) => map.insert named.1 named.2)
      (h.filter_declares profile kind) has hbs (Structures.entities_addEntry hkind)
  obtain ⟨sources, hsources, hfirst⟩ := Structures.diagnostics_of_foldlM has
  obtain ⟨others, hothers, hsecond⟩ := Structures.diagnostics_of_foldlM hbs
  have hperm : sources.Perm others := by
    rw [eq_filterMap_of_mapM hsources, eq_filterMap_of_mapM hothers]
    exact (h.perm.filter _).filterMap _
  refine ⟨?_, ?_, ?_, ?_⟩
  · exact OrderedMap.mapValues_injective (fun _ _ => Entity.bitField.inj)
      (hentities .bitField (by simp))
  · exact OrderedMap.mapValues_injective (fun _ _ => Entity.compound.inj)
      (hentities .compound (by simp))
  · exact OrderedMap.mapValues_injective (fun _ _ => Entity.object.inj)
      (hentities .object (by simp))
  · rw [hfirst, hsecond]
    exact hperm.flatMap_right _

/-- If entries can be read, so can they be when they are interleaved in another way. -/
theorem exists_readEntries {variants : Variants} {structures : Structures} (h : Interleaved as bs)
    (hread : Model.readEntries profile as = .ok (variants, structures)) :
    ∃ other, Model.readEntries profile bs = .ok (variants, other) ∧
      structures.SameUpToOrder other := by
  obtain ⟨first, hfirst, hread⟩ := bind_eq_ok_iff.mp hread
  obtain ⟨second, hsecond, hread⟩ := bind_eq_ok_iff.mp hread
  cases hread
  obtain ⟨found, hfound⟩ :=
    exists_foldlM_of_perm (Variants.exists_addEntry_iff .empty) h.perm hfirst
  -- The enumerations are the same, and so are the beginnings that bit fields are read with.
  cases h.variants_eq hfirst hfound
  obtain ⟨other, hother⟩ := exists_foldlM_of_perm Structures.exists_addEntry_iff h.perm hsecond
  refine ⟨other, ?_, h.structures_sameUpToOrder hsecond hother⟩
  exact bind_eq_ok_iff.mpr ⟨variants, hfound, bind_eq_ok_iff.mpr ⟨other, hother, rfl⟩⟩

end Interleaved

namespace Model

/-- Entries that can be read and objects whose hierarchy can be resolved give a model. -/
theorem ofDocument_eq_ok {profile : Profile} {document : Document} {entries : List Element}
    {variants : Variants} {structures : Structures} {hierarchy : Hierarchy}
    (hentries : filterEmitted profile.emitsEntry document.entries = .ok entries)
    (hread : readEntries profile entries = .ok (variants, structures))
    (hresolve : Hierarchy.resolve (parentLinks structures.objects) = .ok hierarchy) :
    ofDocument profile document = .ok {
      variants, structures with
      diagnostics := structures.diagnostics ++ (parentLinks structures.objects).unresolved
      version := document.version
      hierarchy := hierarchy } := by
  have hentities : (filterEmitted profile.emitsEntry document.entries >>= readEntries profile) =
      .ok (variants, structures) :=
    bind_eq_ok_iff.mpr ⟨entries, hentries, hread⟩
  refine bind_eq_ok_iff.mpr ⟨(variants, structures), mapError_eq_ok_iff.mpr hentities, ?_⟩
  exact bind_eq_ok_iff.mpr ⟨hierarchy, mapError_eq_ok_iff.mpr hresolve, rfl⟩

/-- If a document has a model, so has any other one of the same version that interleaves the same
kinds of entries, and it is the same model up to the order of the findings. -/
theorem exists_ofDocument_of_interleaved {profile : Profile} {a b : Document} {first : Model}
    (hversion : a.version = b.version) (h : Interleaved a.entries b.entries)
    (hfirst : ofDocument profile a = .ok first) :
    ∃ second, ofDocument profile b = .ok second ∧ first.SameUpToOrder second := by
  obtain ⟨entries, structures, hentries, hread, hresolve, hstructures, hmodel⟩ :=
    exists_of_ofDocument hfirst
  obtain ⟨hdecides, rfl⟩ := filterEmitted_eq_ok_iff.mp hentries
  obtain ⟨other, hother, hsame⟩ := (h.filter _).exists_readEntries hread
  have hemitted := filterEmitted_eq_ok_iff.mpr
    ⟨fun entry hentry => hdecides entry (h.perm.mem_iff.mpr hentry), rfl⟩
  rw [hsame.objects] at hresolve
  refine ⟨_, ofDocument_eq_ok hemitted hother hresolve, ?_⟩
  obtain ⟨variants, found, version, hierarchy⟩ := first
  dsimp only at hstructures hmodel
  subst hstructures hmodel
  refine ⟨⟨hsame.bitFields, hsame.compounds, hsame.objects, ?_⟩, hversion, rfl, rfl, rfl⟩
  -- The objects are the same in the same order, so their unknown parents are as well.
  rw [hsame.objects]
  exact hsame.diagnostics.append_right _

/-- A model does not depend on how the kinds of entries are interleaved. Of two documents of one
version with the same entries, those of each kind in the same order, either both have a model or
none has, and the two models have the same maps and the same hierarchy, and the same findings in
some order. -/
theorem ofDocument_interleaved {profile : Profile} {a b : Document}
    (hversion : a.version = b.version) (h : Interleaved a.entries b.entries) :
    ((∃ first, ofDocument profile a = .ok first) ↔ ∃ second, ofDocument profile b = .ok second) ∧
      ∀ {first second : Model}, ofDocument profile a = .ok first →
        ofDocument profile b = .ok second → first.SameUpToOrder second := by
  constructor
  · constructor
    · rintro ⟨first, hfirst⟩
      obtain ⟨second, hsecond, -⟩ := exists_ofDocument_of_interleaved hversion h hfirst
      exact ⟨second, hsecond⟩
    · rintro ⟨second, hsecond⟩
      obtain ⟨first, hfirst, -⟩ := exists_ofDocument_of_interleaved hversion.symm h.symm hsecond
      exact ⟨first, hfirst⟩
  · intro first second hfirst hsecond
    obtain ⟨other, hother, hsame⟩ := exists_ofDocument_of_interleaved hversion h hfirst
    cases hsecond.symm.trans hother
    exact hsame

/-- A bit field with a member whose type is an enumeration. -/
def fogFlagsElement : Element where
  tag := "bitfield"
  attributes := .ofList [("name", "FogFlags"), ("storage", "ushort")]
  text := ""
  children := [{
    tag := "member"
    attributes := .ofList [("name", "Mode"), ("type", "FogMode"), ("pos", "0"), ("mask", "0x3"),
      ("default", "ZLinear")]
    text := ""
    children := [] }]

/-- Members that declare a field with two types. -/
def ambiguousMembers : List Element :=
  [fieldElement [], fieldElement [("type", "uint"), ("cond", "Is Box")]]

/-- An object with these members. -/
def ambiguousObject : Element where
  tag := "niobject"
  attributes := .ofList [("name", "NiNode"), ("inherit", "NiAVObject")]
  text := ""
  children := ambiguousMembers

/-- A document with entries of four kinds, a bit field in front of the enumeration of its member. -/
def mixedDocument : Document :=
  ⟨none, [fogFlagsElement, fogElement "Z Linear" "Z Squared", compoundElement ambiguousMembers,
    ambiguousObject]⟩

/-- The same document backwards. -/
def reversedDocument : Document :=
  ⟨none, mixedDocument.entries.reverse⟩

/-- A document with one entry of each kind gives the same model backwards, with the beginning of
names in the default of the bit field. The findings about the compound and the object change places.
-/
theorem ofDocument_reversedDocument :
    ∃ first second bitField, ofDocument .default mixedDocument = .ok first ∧
      ofDocument .default reversedDocument = .ok second ∧
      first.SameUpToOrder second ∧ first.diagnostics ≠ second.diagnostics ∧
      second.bitFields.get? "FogFlags" = some bitField ∧
      (bitField.members.get? "mode").map BitFieldMember.default? = some (some "FOG_ZLinear") := by
  have hversion : mixedDocument.version = reversedDocument.version := rfl
  have hinterleaved : Interleaved mixedDocument.entries reversedDocument.entries := by
    rw [reversedDocument]
    refine ⟨(List.reverse_perm mixedDocument.entries).symm, fun kind => ?_⟩
    cases kind <;> rfl
  have hview : ((ofDocument .default mixedDocument).toOption.bind fun first =>
      (ofDocument .default reversedDocument).toOption.bind fun second =>
        (first.bitFields.get? "FogFlags").map fun bitField =>
          (decide (first.diagnostics = second.diagnostics),
            (bitField.members.get? "mode").map BitFieldMember.default?)) =
      some (false, some (some "FOG_ZLinear")) := by
    decide +kernel
  obtain ⟨first, hfirst, hview⟩ := Option.bind_eq_some_iff.mp hview
  obtain ⟨second, hsecond, hview⟩ := Option.bind_eq_some_iff.mp hview
  obtain ⟨bitField, hbitField, hview⟩ := Option.map_eq_some_iff.mp hview
  obtain ⟨hdiffer, hdefault⟩ := Prod.mk.inj hview
  rw [toOption_eq_some_iff] at hfirst hsecond
  have hsame := (ofDocument_interleaved hversion hinterleaved).2 hfirst hsecond
  rw [hsame.bitFields] at hbitField
  exact ⟨first, second, bitField, hfirst, hsecond, hsame, of_decide_eq_false hdiffer, hbitField,
    hdefault⟩

end Model

end NifBindings
