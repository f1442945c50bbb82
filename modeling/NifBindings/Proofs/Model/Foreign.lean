import NifBindings.Proofs.Field.Presence
import NifBindings.Proofs.Model.Reading

/-!
# Entries of other kinds

An entry whose tag describes nothing of a model adds nothing to it. But whether entries are emitted
is asked of all of them before their tags are looked at, and the first one about which the profile
cannot decide ends the reading. So leaving the other entries out changes something exactly if one of
them is the first that cannot be decided about and what is left does not fail with its error.
-/

namespace NifBindings

/-- Whether an entry describes something of a model. -/
def Element.isDescribed (entry : Element) : Bool :=
  (EntryKind.ofTag? entry.tag).isSome

/-- A document without the entries of other kinds. -/
def Document.described (document : Document) : Document :=
  { document with entries := document.entries.filter Element.isDescribed }

/-- Whether an element is the first about which a check cannot decide, for this reason. -/
def FirstUndecided (emits : Attributes → Except InputError Bool) (elements : List Element)
    (element : Element) (error : InputError) : Prop :=
  ∃ before after, elements = before ++ element :: after ∧ Decides emits before ∧
    emits element.attributes = .error error

/-- Inputs that leave the state as it is can be left out of a run. -/
theorem foldlM_filter_of_skip {ε α σ : Type} {step : σ → α → Except ε σ} {reads : α → Bool}
    {start : σ} {inputs : List α}
    (hskip : ∀ state input, reads input = false → step state input = .ok state) :
    (inputs.filter reads).foldlM step start = inputs.foldlM step start := by
  induction inputs generalizing start with
  | nil => rfl
  | cons input inputs ih =>
    cases hreads : reads input with
    | true =>
      rw [List.filter_cons_of_pos hreads, List.foldlM_cons, List.foldlM_cons]
      exact bind_congr fun next => ih
    | false =>
      rw [List.filter_cons_of_neg (by simp [hreads]), List.foldlM_cons, hskip start input hreads]
      exact ih

section Choosing

variable {emits : Attributes → Except InputError Bool} {elements : List Element}
  {element : Element} {error : InputError}

/-- Elements cannot be chosen exactly if the check cannot decide about a first one of them. -/
theorem filterEmitted_eq_error_iff :
    filterEmitted emits elements = .error error ↔
      ∃ element, FirstUndecided emits elements element error := by
  constructor
  · intro h
    induction elements with
    | nil => cases h
    | cons first rest ih =>
      rcases bind_eq_error_iff.mp h with hfirst | ⟨answer, hanswer, h⟩
      · exact ⟨first, [], rest, rfl, nofun, hfirst⟩
      · rcases bind_eq_error_iff.mp h with hrest | ⟨others, -, h⟩
        · obtain ⟨element, before, after, rfl, hbefore, herror⟩ := ih hrest
          exact ⟨element, first :: before, after, rfl,
            List.forall_mem_cons.mpr ⟨⟨answer, hanswer⟩, hbefore⟩, herror⟩
        · cases h
  · rintro ⟨element, before, after, rfl, hbefore, herror⟩
    induction before with
    | nil => exact bind_eq_error_iff.mpr (.inl herror)
    | cons first before ih =>
      obtain ⟨⟨answer, hanswer⟩, hbefore⟩ := List.forall_mem_cons.mp hbefore
      refine bind_eq_error_iff.mpr (.inr ⟨answer, hanswer, ?_⟩)
      exact bind_eq_error_iff.mpr (.inl (ih hbefore))

/-- The first element that cannot be decided about stays the first if others are left out. -/
theorem FirstUndecided.filter (h : FirstUndecided emits elements element error)
    {chosen : Element → Bool} (hchosen : chosen element = true) :
    FirstUndecided emits (elements.filter chosen) element error := by
  obtain ⟨before, after, rfl, hbefore, herror⟩ := h
  refine ⟨before.filter chosen, after.filter chosen, ?_, ?_, herror⟩
  · rw [List.filter_append, List.filter_cons_of_pos hchosen]
  · exact fun other hother => hbefore other (List.mem_filter.mp hother).1

/-- If others are left out, the same of the remaining elements are chosen. -/
theorem filterEmitted_filter {kept : List Element} (h : filterEmitted emits elements = .ok kept)
    (chosen : Element → Bool) :
    filterEmitted emits (elements.filter chosen) = .ok (kept.filter chosen) := by
  obtain ⟨hdecides, rfl⟩ := filterEmitted_eq_ok_iff.mp h
  refine filterEmitted_eq_ok_iff.mpr ⟨?_, List.filter_comm _ _ _⟩
  exact fun other hother => hdecides other (List.mem_filter.mp hother).1

end Choosing

namespace Model

variable {profile : Profile}

/-- Entries of other kinds add nothing to the structures of a model. -/
theorem readEntries_filter_isDescribed (entries : List Element) :
    readEntries profile (entries.filter Element.isDescribed) = readEntries profile entries := by
  have htag {entry : Element} (h : entry.isDescribed = false) :
      EntryKind.ofTag? entry.tag = none := by
    simpa [Element.isDescribed] using h
  have hvariants (variants : Variants) (entry : Element) (h : entry.isDescribed = false) :
      Variants.addEntry profile variants entry = .ok variants := by
    rw [Variants.addEntry, htag h]
  have hstructures (beginnings : OrderedMap String String) (structures : Structures)
      (entry : Element) (h : entry.isDescribed = false) :
      Structures.addEntry profile beginnings structures entry = .ok structures := by
    rw [Structures.addEntry, htag h]
  unfold readEntries
  rw [foldlM_filter_of_skip hvariants]
  refine bind_congr fun variants => ?_
  rw [foldlM_filter_of_skip (hstructures variants.beginnings)]

/-- The first entry about which the profile cannot decide ends the reading, whatever its kind. -/
theorem ofDocument_of_firstUndecided {document : Document} {entry : Element} {error : InputError}
    (h : FirstUndecided profile.emitsEntry document.entries entry error) :
    ofDocument profile document = .error (.input error) := by
  have hchosen := filterEmitted_eq_error_iff.mpr ⟨entry, h⟩
  unfold ofDocument
  rw [hchosen]
  rfl

/-- If the profile decides about all entries, those of other kinds count for nothing. -/
theorem ofDocument_described_of_filterEmitted {document : Document} {kept : List Element}
    (h : filterEmitted profile.emitsEntry document.entries = .ok kept) :
    ofDocument profile document.described = ofDocument profile document := by
  have hread : (filterEmitted profile.emitsEntry document.described.entries >>=
      readEntries profile) =
      filterEmitted profile.emitsEntry document.entries >>= readEntries profile := by
    rw [h]
    unfold Document.described
    rw [filterEmitted_filter h]
    exact readEntries_filter_isDescribed kept
  unfold ofDocument
  simp only [hread]
  rfl

/-- Leaving out the entries of other kinds gives the same model or the same error exactly if none of
them is the first entry about which the profile cannot decide, or what is left fails with its error
as well. Such an entry ends the reading of the whole document. -/
theorem ofDocument_described_eq_iff (profile : Profile) (document : Document) :
    (ofDocument profile document.described = ofDocument profile document ↔
      ∀ other error, FirstUndecided profile.emitsEntry document.entries other error →
        EntryKind.ofTag? other.tag = none →
          ofDocument profile document.described = .error (.input error)) ∧
      ∀ other error, FirstUndecided profile.emitsEntry document.entries other error →
        ofDocument profile document = .error (.input error) := by
  refine ⟨⟨?_, ?_⟩, fun other error hfirst => ofDocument_of_firstUndecided hfirst⟩
  · intro hsame other error hfirst _
    rw [hsame]
    exact ofDocument_of_firstUndecided hfirst
  · intro hother
    cases hchosen : filterEmitted profile.emitsEntry document.entries with
    | ok kept => exact ofDocument_described_of_filterEmitted hchosen
    | error error =>
      obtain ⟨entry, hfirst⟩ := filterEmitted_eq_error_iff.mp hchosen
      rw [ofDocument_of_firstUndecided hfirst]
      cases htag : EntryKind.ofTag? entry.tag with
      | none => exact hother entry error hfirst htag
      | some kind =>
        exact ofDocument_of_firstUndecided (hfirst.filter (by simp [Element.isDescribed, htag]))

/-- A document with an entry for a basic type in front of a compound. -/
def foreignDocument (extra : List (String × String)) : Document :=
  ⟨none, [⟨"basic", .ofList ([("name", "uint")] ++ extra), "", []⟩,
    compoundElement [fieldElement []]]⟩

/-- An entry of another kind that the profile leaves out by its version changes nothing. -/
theorem ofDocument_described_foreignDocument :
    ofDocument .default (foreignDocument [("since", "99.0")]).described =
        ofDocument .default (foreignDocument [("since", "99.0")]) ∧
      ∃ model, ofDocument .default (foreignDocument [("since", "99.0")]) = .ok model := by
  have hchosen : (filterEmitted Profile.default.emitsEntry
      (foreignDocument [("since", "99.0")]).entries).toBool = true := by
    decide +kernel
  have hmodel : (ofDocument .default (foreignDocument [("since", "99.0")])).toBool = true := by
    decide +kernel
  refine ⟨(ofDocument_described_eq_iff _ _).1.mpr fun other error hfirst _ => ?_, ?_⟩
  · rw [filterEmitted_eq_error_iff.mpr ⟨other, hfirst⟩] at hchosen
    cases hchosen
  · cases hdocument : ofDocument .default (foreignDocument [("since", "99.0")]) with
    | error error =>
      rw [hdocument] at hmodel
      cases hmodel
    | ok model => exact ⟨model, rfl⟩

/-- An entry of another kind with a version that cannot be read ends the reading of a document that
has a model without it. -/
theorem ofDocument_described_ne_foreignDocument :
    ofDocument .default (foreignDocument [("since", "x")]).described ≠
        ofDocument .default (foreignDocument [("since", "x")]) ∧
      ofDocument .default (foreignDocument [("since", "x")]) = .error (.input (.version "x")) ∧
      ∃ model, ofDocument .default (foreignDocument [("since", "x")]).described = .ok model := by
  have herror : ofDocument .default (foreignDocument [("since", "x")]) =
      .error (.input (.version "x")) := by
    refine ofDocument_of_firstUndecided ⟨[], [compoundElement [fieldElement []]], rfl, nofun, ?_⟩
    decide +kernel
  have hmodel :
      (ofDocument .default (foreignDocument [("since", "x")]).described).toBool = true := by
    decide +kernel
  cases hdescribed : ofDocument .default (foreignDocument [("since", "x")]).described with
  | error error =>
    rw [hdescribed] at hmodel
    cases hmodel
  | ok model =>
    rw [herror]
    exact ⟨nofun, rfl, model, rfl⟩

end Model

end NifBindings
