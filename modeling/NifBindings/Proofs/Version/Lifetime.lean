import NifBindings.Proofs.Version.Spelling
import NifBindings.Proofs.Version.Support

/-!
# Lifetimes of structures

A structure may name the version that it came with and the version that it lasted until. Unlike the
bounds of a member, which a version lies between, both are lower bounds: the targets at or above the
second one pass. It is looked at only where the first one is there, and neither counts where the
structure lists its versions.
-/

namespace NifBindings

/-- Whether a version lies at or above the bounds of a structure, the second of which counts only
beside the first. -/
def Reaches (first last : Option Version) (version : Version) : Prop :=
  ∀ lower ∈ first, lower ≤ version ∧ ∀ bound ∈ last, bound ≤ version

instance (first last : Option Version) (version : Version) :
    Decidable (Reaches first last version) :=
  inferInstanceAs (Decidable (∀ lower ∈ first, lower ≤ version ∧ ∀ bound ∈ last, bound ≤ version))

variable {attributes : Attributes} {first last : Option Version}

/-- A structure that lists no versions exists in the versions that reach its bounds. -/
theorem existsIn_eq (hversions : attributes.get? "versions" = none)
    (hfirst : readOptional Version.parse (attributes.get? "since") = .ok first)
    (hlast : readOptional Version.parse (attributes.get? "until") = .ok last) (version : Version) :
    existsIn attributes version = .ok (decide (Reaches first last version)) := by
  unfold existsIn
  rw [hversions]
  rcases readOptional_cases hfirst with ⟨hsince, rfl⟩ | ⟨text, lower, hsince, rfl, hlower⟩
  · rw [hsince]
    simp [Reaches]
  rw [hsince]
  dsimp only
  rw [Version.atLeast_of_parse hlower]
  by_cases hle : lower ≤ version
  · rcases readOptional_cases hlast with ⟨huntil, rfl⟩ | ⟨text, bound, huntil, rfl, hbound⟩
    · rw [huntil, decide_eq_true hle]
      simp [Reaches, hle, Bind.bind, Except.bind]
    · rw [huntil, decide_eq_true hle]
      simp [Reaches, hle, Version.atLeast_of_parse hbound, Bind.bind, Except.bind]
  · rw [decide_eq_false hle]
    simp [Reaches, hle, Bind.bind, Except.bind]

/-- A version that stands in a list of versions is found there. -/
theorem Version.isListed_of_mem {version : Version} {texts : List String} {text : String}
    (hversions : ∀ text ∈ texts, IsVersion text) (hmem : text ∈ texts)
    (hparse : parse text = .ok version) : version.isListed texts = .ok true := by
  induction texts with
  | nil => cases hmem
  | cons first rest ih =>
    obtain ⟨⟨other, hother⟩, hversions⟩ := List.forall_mem_cons.mp hversions
    rw [isListed, relationTo, hother]
    by_cases hequal : compare version other = .eq
    · exact if_pos hequal
    · refine (if_neg hequal).trans ?_
      rcases List.mem_cons.mp hmem with rfl | hmem
      · rw [hparse] at hother
        cases hother
        exact absurd (compareComponents_eq_eq_iff.mpr rfl) hequal
      · exact ih hversions hmem

namespace Profile

variable {profile : Profile}

/-- Whether a profile does not leave out a structure for the versions that it lists: it takes such
structures, and the list names a condition or is made of versions, one of which is a target. -/
def AcceptsListing (profile : Profile) (attributes : Attributes) : Prop :=
  ∀ list ∈ attributes.get? "versions", profile.skipVersionSpecific = false ∧
    (Text.beginsWith list "#" = true ∨ (∀ text ∈ listedVersions list, IsVersion text) ∧
      ∃ target ∈ profile.versions, ∃ text ∈ listedVersions list, Version.parse text = .ok target)

/-- A structure that is left out neither for its name nor for its list of versions is generated if
it exists in some target. -/
theorem emitsEntry_eq (hexcludes : profile.excludes attributes = false)
    (hlisting : profile.AcceptsListing attributes) :
    profile.emitsEntry attributes = anyVersion (existsIn attributes) profile.versions := by
  have hskip : ¬(profile.skipVersionSpecific && attributes.contains "versions") = true := by
    rw [Bool.and_eq_true, OrderedMap.contains, Option.isSome_iff_exists]
    rintro ⟨hskip, list, hlist⟩
    rw [(hlisting list hlist).1] at hskip
    cases hskip
  rw [emitsEntry, if_neg hskip, if_neg (by simp [hexcludes])]

/-- A structure with an accepted list of versions exists in some target, if there is any. -/
theorem exists_anyVersion_of_acceptsListing {list : String}
    (hversions : attributes.get? "versions" = some list)
    (hlisting : profile.AcceptsListing attributes) :
    ∃ answer, anyVersion (existsIn attributes) profile.versions = .ok answer ∧
      (answer = true ↔ ∃ target, target ∈ profile.versions) := by
  have hexists := existsIn_of_versions hversions
  by_cases hcondition : Text.beginsWith list "#" = true
  · simp only [hcondition, if_true] at hexists
    exact ⟨_, anyVersion_eq_any hexists profile.versions, by simp⟩
  · obtain ⟨htexts, target, htarget, text, htext, hparse⟩ :=
      (hlisting list hversions).2.resolve_left hcondition
    simp only [hcondition] at hexists
    refine ⟨true, anyVersion_eq_true (fun other _ => ?_) htarget ?_, by simpa using ⟨_, htarget⟩⟩
    · rw [hexists]
      rcases other.isListed_cases (listedVersions list) with
        htrue | ⟨hfalse, -⟩ | ⟨bad, hbad, hnot, -⟩
      · exact ⟨true, htrue⟩
      · exact ⟨false, hfalse⟩
      · exact absurd (htexts bad hbad) hnot
    · rw [hexists]
      exact Version.isListed_of_mem htexts htext hparse

/-- A structure that is left out neither for its name nor for its list of versions, and whose bounds
can be read, is generated exactly if some target reaches both bounds, or, where it lists its
versions, if there is a target. A member with the same two bounds exists in the versions between
them. -/
theorem emitsEntry_iff_reaches
    (hfirst : readOptional Version.parse (attributes.get? "since") = .ok first)
    (hlast : readOptional Version.parse (attributes.get? "until") = .ok last)
    (hexcludes : profile.excludes attributes = false)
    (hlisting : profile.AcceptsListing attributes) :
    (∃ answer, profile.emitsEntry attributes = .ok answer ∧
      (answer = true ↔ ∃ target ∈ profile.versions,
        attributes.get? "versions" = none → Reaches first last target)) ∧
    ∀ member : Attributes, member.get? "ver1" = attributes.get? "since" →
      member.get? "ver2" = attributes.get? "until" → ∀ target,
        memberExistsIn member target =
          .ok (decide ((∀ lower ∈ first, lower ≤ target) ∧ ∀ upper ∈ last, target ≤ upper)) := by
  refine ⟨?_, fun member hver1 hver2 target => ?_⟩
  · rw [emitsEntry_eq hexcludes hlisting]
    cases hversions : attributes.get? "versions" with
    | none =>
      refine ⟨_, anyVersion_eq_any (existsIn_eq hversions hfirst hlast) profile.versions, ?_⟩
      simp
    | some list =>
      simpa using exists_anyVersion_of_acceptsListing hversions hlisting
  · rw [← hver1] at hfirst
    rw [← hver2] at hlast
    rw [@memberExistsIn_eq member ⟨first, last⟩ hfirst hlast, VersionRange.contains_eq,
      Except.ok.injEq, Bool.eq_iff_iff]
    cases first <;> cases last <;> simp

/-- The attributes of a structure that came with one version and lasted until another one. -/
def retiredAttributes : Attributes :=
  .ofList [("name", "NiBone"), ("since", "10.0.0.0"), ("until", "V20_2_0_7")]

/-- A structure that has been retired is generated for the targets at or above its last version. -/
theorem emitsEntry_iff_reaches_retired :
    readOptional Version.parse (retiredAttributes.get? "since") = .ok (some ⟨10, 0, 0, 0⟩) ∧
      readOptional Version.parse (retiredAttributes.get? "until") = .ok (some ⟨20, 2, 0, 7⟩) ∧
      Profile.default.excludes retiredAttributes = false ∧
      Profile.default.AcceptsListing retiredAttributes ∧
      Profile.default.emitsEntry retiredAttributes = .ok true := by
  have hfirst : readOptional Version.parse (retiredAttributes.get? "since") =
      .ok (some ⟨10, 0, 0, 0⟩) := by decide +kernel
  have hlast : readOptional Version.parse (retiredAttributes.get? "until") =
      .ok (some ⟨20, 2, 0, 7⟩) := by decide +kernel
  have hexcludes : Profile.default.excludes retiredAttributes = false := by decide +kernel
  have hlisting : Profile.default.AcceptsListing retiredAttributes := by
    intro list hlist
    cases hlist
  obtain ⟨⟨answer, hanswer, hiff⟩, -⟩ := emitsEntry_iff_reaches hfirst hlast hexcludes hlisting
  have htrue : answer = true :=
    hiff.mpr ⟨⟨20, 2, 0, 8⟩, by decide, fun _ => by decide +kernel⟩
  exact ⟨hfirst, hlast, hexcludes, hlisting, htrue ▸ hanswer⟩

/-- A structure is left out though the only target lies between its bounds. -/
theorem not_emitsEntry_iff_between :
    ¬∀ (profile : Profile) (attributes : Attributes) (first last : Option Version),
      readOptional Version.parse (attributes.get? "since") = .ok first →
      readOptional Version.parse (attributes.get? "until") = .ok last →
      profile.excludes attributes = false → profile.AcceptsListing attributes →
      (profile.emitsEntry attributes = .ok true ↔ ∃ target ∈ profile.versions,
        (∀ lower ∈ first, lower ≤ target) ∧ ∀ upper ∈ last, target ≤ upper) := by
  intro h
  have hiff := h (forVersions [⟨20, 1, 0, 3⟩]) retiredAttributes (some ⟨10, 0, 0, 0⟩)
    (some ⟨20, 2, 0, 7⟩) (by decide +kernel) (by decide +kernel) (by decide +kernel)
    (fun list hlist => by cases hlist)
  have hbetween : ∃ target ∈ (forVersions [⟨20, 1, 0, 3⟩]).versions,
      (∀ lower ∈ some ⟨10, 0, 0, 0⟩, lower ≤ target) ∧
        ∀ upper ∈ some ⟨20, 2, 0, 7⟩, target ≤ upper := by
    decide +kernel
  exact absurd (hiff.mpr hbetween) (by decide +kernel)

end Profile

end NifBindings
