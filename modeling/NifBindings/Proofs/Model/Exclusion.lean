import Mathlib.Data.List.Forall2
import NifBindings.Proofs.Field.Presence
import NifBindings.Proofs.Model.Reading

/-!
# Excluded content

What a profile leaves out has no influence on a model. A structure is read from the tag, the
attributes, the text and the emitted members of its entry, and a model from the emitted entries. So
entries and members that are left out may hold anything at all.
-/

namespace NifBindings

/-- Whether two entries are the same but for members that are left out. -/
structure Profile.SameEmitted (profile : Profile) (a b : Element) : Prop where
  tag : a.tag = b.tag
  attributes : a.attributes = b.attributes
  text : a.text = b.text
  /-- It is known of every member of the first whether it is left out. -/
  left : Decides profile.emitsMember a.children
  /-- It is known of every member of the second whether it is left out. -/
  right : Decides profile.emitsMember b.children
  /-- The other members are the same. -/
  members : passing profile.emitsMember a.children = passing profile.emitsMember b.children

/-- A run of steps on two lists is the same if the steps on their elements are. -/
theorem foldlM_congr_of_forall₂ {ε α σ : Type} {step : σ → α → Except ε σ} {related : α → α → Prop}
    {start : σ} {as bs : List α} (h : List.Forall₂ related as bs)
    (hstep : ∀ {a b}, related a b → ∀ state, step state a = step state b) :
    as.foldlM step start = bs.foldlM step start := by
  induction h generalizing start with
  | nil => rfl
  | cons hfirst _ ih =>
    rw [List.foldlM_cons, List.foldlM_cons, hstep hfirst]
    exact bind_congr fun next => ih

namespace Profile.SameEmitted

variable {profile : Profile} {a b : Element}

/-- The emitted members of both entries are the same. -/
theorem emittedMembers_eq (h : profile.SameEmitted a b) :
    profile.emittedMembers a = profile.emittedMembers b := by
  unfold emittedMembers
  rw [filterEmitted_of_decides h.left, filterEmitted_of_decides h.right, h.members]

/-- Both entries have the same attributes. -/
theorem get?_eq (h : profile.SameEmitted a b) (key : String) : a.get? key = b.get? key := by
  unfold Element.get?
  rw [h.attributes]

/-- Both entries have the same required attributes, or lack them with the same error. -/
theorem require_eq (h : profile.SameEmitted a b) (key : String) :
    a.require key = b.require key := by
  unfold Element.require
  rw [h.tag, h.attributes]

/-- Both entries describe the same bit flags. -/
theorem bitFlags_eq (h : profile.SameEmitted a b) :
    BitFlags.ofElement profile a = BitFlags.ofElement profile b := by
  unfold BitFlags.ofElement
  simp only [h.emittedMembers_eq, h.get?_eq, h.require_eq, h.text]

/-- Both entries describe the same enumeration. -/
theorem enumeration_eq (h : profile.SameEmitted a b) :
    Enumeration.ofElement profile a = Enumeration.ofElement profile b := by
  unfold Enumeration.ofElement
  simp only [h.emittedMembers_eq, h.get?_eq, h.require_eq, h.text]

/-- Both entries describe the same bit field. -/
theorem bitField_eq (h : profile.SameEmitted a b) (beginnings : OrderedMap String String) :
    BitField.ofElement profile beginnings a = BitField.ofElement profile beginnings b := by
  unfold BitField.ofElement
  simp only [h.emittedMembers_eq, h.require_eq, h.text]

/-- Both entries have the same fields. -/
theorem readFields_eq (h : profile.SameEmitted a b) (owner : String) :
    readFields profile owner a = readFields profile owner b := by
  unfold readFields
  rw [h.emittedMembers_eq]

/-- Both entries describe the same compound. -/
theorem compound_eq (h : profile.SameEmitted a b) :
    Compound.ofElement profile a = Compound.ofElement profile b := by
  unfold Compound.ofElement
  simp only [h.readFields_eq, h.get?_eq, h.require_eq, h.text]

/-- Both entries describe the same object. -/
theorem object_eq (h : profile.SameEmitted a b) :
    NiObject.ofElement profile a = NiObject.ofElement profile b := by
  unfold NiObject.ofElement
  simp only [h.readFields_eq, h.get?_eq, h.require_eq, h.text]

/-- Both entries add the same to bit flags and enumerations. -/
theorem addVariant_eq (h : profile.SameEmitted a b) (variants : Variants) :
    Variants.addEntry profile variants a = Variants.addEntry profile variants b := by
  unfold Variants.addEntry
  rw [h.tag, h.bitFlags_eq, h.enumeration_eq]

/-- Both entries add the same to bit fields, compounds, objects and findings. -/
theorem addStructure_eq (h : profile.SameEmitted a b) (beginnings : OrderedMap String String)
    (structures : Structures) :
    Structures.addEntry profile beginnings structures a =
      Structures.addEntry profile beginnings structures b := by
  unfold Structures.addEntry
  rw [h.tag, h.get?_eq, h.bitField_eq, h.compound_eq, h.object_eq]

end Profile.SameEmitted

namespace Model

/-- The structures of entries are the same if the entries are but for members that are left out. -/
theorem readEntries_eq {profile : Profile} {as bs : List Element}
    (h : List.Forall₂ profile.SameEmitted as bs) :
    readEntries profile as = readEntries profile bs := by
  unfold readEntries
  rw [foldlM_congr_of_forall₂ h Profile.SameEmitted.addVariant_eq]
  refine bind_congr fun variants => ?_
  rw [foldlM_congr_of_forall₂ h fun hsame => hsame.addStructure_eq variants.beginnings]

/-- Excluded content has no influence. Two documents of one version give the same model or the same
error if it is known of all their entries whether these are left out, and the others are the same in
turn, but for members of which it is known that they are left out. -/
theorem ofDocument_eq_of_sameEmitted {profile : Profile} {a b : Document}
    (hversion : a.version = b.version) (ha : Decides profile.emitsEntry a.entries)
    (hb : Decides profile.emitsEntry b.entries)
    (hsame : List.Forall₂ profile.SameEmitted (passing profile.emitsEntry a.entries)
      (passing profile.emitsEntry b.entries)) :
    ofDocument profile a = ofDocument profile b := by
  have hread : (filterEmitted profile.emitsEntry a.entries >>= readEntries profile) =
      filterEmitted profile.emitsEntry b.entries >>= readEntries profile := by
    rw [filterEmitted_of_decides ha, filterEmitted_of_decides hb]
    exact readEntries_eq hsame
  unfold ofDocument
  rw [hversion]
  simp only [hread]

/-- An object of the vendor whose structures the default profile leaves out. -/
def vendorObject (name parent : String) : Element where
  tag := "niobject"
  attributes := .ofList [("name", name), ("inherit", parent)]
  text := ""
  children := []

/-- A member for which nothing but a condition is written, one that is left out. -/
def strayMember : Element where
  tag := "field"
  attributes := .ofList [("cond", "#BSSTREAMHEADER#")]
  text := ""
  children := []

/-- Two of those objects that inherit from one another. -/
def vendorCycle : List Element :=
  [vendorObject "bhkShape" "bhkBody", vendorObject "bhkBody" "bhkShape"]

/-- A compound with some members behind other entries. -/
def vendorDocument (others members : List Element) : Document :=
  ⟨none, others ++ [compoundElement members]⟩

/-- Neither objects of the vendor that inherit from one another nor a member without a name and a
type change the model of a compound. Profiles that leave them in refuse them. -/
theorem ofDocument_vendorDocument :
    ofDocument .default (vendorDocument vendorCycle [fieldElement [], strayMember]) =
        ofDocument .default (vendorDocument [] [fieldElement []]) ∧
      (∀ model, ofDocument { Profile.default with excludedBeginnings := [] }
        (vendorDocument vendorCycle [fieldElement []]) ≠ .ok model) ∧
      ∀ model, ofDocument { Profile.default with excludedConditions := [] }
        (vendorDocument [] [fieldElement [], strayMember]) ≠ .ok model := by
  have hshape : Profile.default.emitsEntry (vendorObject "bhkShape" "bhkBody").attributes =
      .ok false := by
    decide +kernel
  have hbody : Profile.default.emitsEntry (vendorObject "bhkBody" "bhkShape").attributes =
      .ok false := by
    decide +kernel
  have hcompound (members : List Element) :
      Profile.default.emitsEntry (compoundElement members).attributes = .ok true := by
    change Profile.default.emitsEntry (compoundElement []).attributes = .ok true
    decide +kernel
  have hfield : Profile.default.emitsMember (fieldElement []).attributes = .ok true := by
    decide +kernel
  have hstray : Profile.default.emitsMember strayMember.attributes = .ok false := by decide +kernel
  have hrefused {profile : Profile} {document : Document}
      (h : (ofDocument profile document).toBool = false) (model : Model) :
      ofDocument profile document ≠ .ok model := by
    intro hok
    rw [hok] at h
    cases h
  refine ⟨ofDocument_eq_of_sameEmitted rfl ?_ ?_ ?_, hrefused (by decide +kernel),
    hrefused (by decide +kernel)⟩
  · simp [Decides, vendorDocument, vendorCycle, hshape, hbody, hcompound]
  · simp [Decides, vendorDocument, hcompound]
  · simp only [passing, vendorDocument, vendorCycle, List.cons_append, List.nil_append,
      List.filter_cons, List.filter_nil, hshape, hbody, hcompound]
    refine .cons ⟨rfl, rfl, rfl, ?_, ?_, ?_⟩ .nil
    · simp [Decides, compoundElement, hfield, hstray]
    · simp [Decides, compoundElement, hfield]
    · simp [passing, compoundElement, hfield, hstray]

end Model

end NifBindings
