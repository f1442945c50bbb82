import NifBindings.Proofs.Field.Presence
import NifBindings.Proofs.Version.Check

/-!
# Selection by version

Members are chosen by the bounds that they declare, before anything is generated, and each generated
field is checked against the same bounds when a file is read. Both come to the same: a member exists
in a version exactly if its check holds in the files of that version.
-/

namespace NifBindings

/-- A check that ends with a value for every version is passed by a list of them exactly if one of
them passes it. -/
theorem anyVersion_eq_any {check : Version → Except InputError Bool} {passes : Version → Bool}
    (hcheck : ∀ version, check version = .ok (passes version)) (versions : List Version) :
    anyVersion check versions = .ok (versions.any passes) := by
  induction versions with
  | nil => rfl
  | cons version rest ih =>
    rw [anyVersion, hcheck, List.any_cons, ih]
    cases passes version <;> rfl

namespace FieldType

/-- The range of a field has the bounds that are read from its two versions. -/
theorem versionRange_eq_ok_iff {type : FieldType} {range : VersionRange} :
    type.versionRange = .ok range ↔
      readOptional Version.parse type.since = .ok range.first ∧
        readOptional Version.parse type.last = .ok range.last := by
  unfold versionRange
  simp only [bind_eq_ok_iff, Except.ok.injEq]
  constructor
  · rintro ⟨first, hfirst, last, hlast, rfl⟩
    exact ⟨hfirst, hlast⟩
  · rintro ⟨hfirst, hlast⟩
    exact ⟨_, hfirst, _, hlast, rfl⟩

/-- Attributes with a type describe a field whose versions are those of the attributes. -/
theorem exists_ofAttributes {attributes : Attributes} (element : String)
    (htype : attributes.contains "type" = true) :
    ∃ type, ofAttributes element attributes = .ok type ∧
      type.since = attributes.get? "ver1" ∧ type.last = attributes.get? "ver2" := by
  obtain ⟨base, hbase⟩ := Option.isSome_iff_exists.mp htype
  have hrequire : attributes.require element "type" = .ok base := by
    rw [Attributes.require, hbase]
  exact ⟨_, bind_eq_ok_iff.mpr ⟨base, hrequire, rfl⟩, rfl, rfl⟩

end FieldType

/-- A bound that is a version if it is there can be read. -/
theorem exists_readOptional {bound : Option String}
    (h : ∀ text ∈ bound, ∃ version, Version.parse text = .ok version) :
    ∃ version?, readOptional Version.parse bound = .ok version? := by
  cases bound with
  | none => exact ⟨none, rfl⟩
  | some text =>
    obtain ⟨version, hversion⟩ := h text rfl
    exact ⟨some version, readOptional_some_eq_ok_iff.mpr ⟨version, hversion, rfl⟩⟩

/-- A bound that is read is missing or a version. -/
theorem readOptional_cases {bound : Option String} {version? : Option Version}
    (h : readOptional Version.parse bound = .ok version?) :
    (bound = none ∧ version? = none) ∨
      ∃ text version, bound = some text ∧ version? = some version ∧
        Version.parse text = .ok version := by
  cases bound with
  | none =>
    cases h
    exact .inl ⟨rfl, rfl⟩
  | some text =>
    obtain ⟨version, hversion, rfl⟩ := readOptional_some_eq_ok_iff.mp h
    exact .inr ⟨text, version, rfl, rfl, hversion⟩

namespace Profile

/-- A member with readable bounds exists exactly in the versions between them. -/
theorem memberExistsIn_eq {attributes : Attributes} {range : VersionRange}
    (hfirst : readOptional Version.parse (attributes.get? "ver1") = .ok range.first)
    (hlast : readOptional Version.parse (attributes.get? "ver2") = .ok range.last)
    (version : Version) :
    memberExistsIn attributes version = .ok (range.contains version) := by
  obtain ⟨first, last⟩ := range
  rw [VersionRange.contains_eq]
  unfold memberExistsIn
  rcases readOptional_cases hfirst with ⟨hver1, rfl⟩ | ⟨text, first, hver1, rfl, hbound⟩
  · rcases readOptional_cases hlast with ⟨hver2, rfl⟩ | ⟨text, last, hver2, rfl, hbound⟩
    · rw [hver1, hver2]
      rfl
    · rw [hver1, hver2]
      exact Version.atMost_of_parse hbound
  · rw [hver1]
    dsimp only
    rw [Version.atLeast_of_parse hbound, Option.all_some]
    -- The second bound is looked at only behind the first one.
    by_cases hle : first ≤ version
    · rcases readOptional_cases hlast with ⟨hver2, rfl⟩ | ⟨text, last, hver2, rfl, hbound'⟩
      · rw [hver2, decide_eq_true hle]
        rfl
      · rw [hver2, decide_eq_true hle]
        exact Version.atMost_of_parse hbound'
    · rw [decide_eq_false hle]
      rfl

/-- Members with a type are chosen as their version checks answer. If the bounds can be read, a
member exists in a version exactly if the text of its check holds in the files of that version, so
that it is kept for its versions exactly if the check holds in those of some target; and the check
of every member that is kept can be made. -/
theorem memberExistsIn_iff_answers {attributes : Attributes} (element : String)
    (htype : attributes.contains "type" = true) :
    ∃ type, FieldType.ofAttributes element attributes = .ok type ∧
      ((∀ key ∈ ["ver1", "ver2"], ∀ text ∈ attributes.get? key,
          ∃ bound, Version.parse text = .ok bound) →
        ∃ check, type.versionRange.map VersionRange.render? = .ok check ∧
          (∀ target, (∃ passes, memberExistsIn attributes target = .ok passes) ∧
            ∀ passes, memberExistsIn attributes target = .ok passes ↔
              Answers target passes check) ∧
          ∀ profile : Profile, ∃ passes,
            anyVersion (memberExistsIn attributes) profile.versions = .ok passes ∧
              (passes = true ↔ ∃ target ∈ profile.versions, Answers target true check)) ∧
      ∀ profile : Profile, profile.emitsMember attributes = .ok true →
        ∃ check, type.versionRange.map VersionRange.render? = .ok check := by
  obtain ⟨type, hof, hsince, hlast⟩ := FieldType.exists_ofAttributes element htype
  refine ⟨type, hof, ?_, ?_⟩
  · intro hbounds
    obtain ⟨first, hfirst⟩ := exists_readOptional (hbounds "ver1" (by simp))
    obtain ⟨last, hlast'⟩ := exists_readOptional (hbounds "ver2" (by simp))
    have hrange : type.versionRange = .ok ⟨first, last⟩ :=
      FieldType.versionRange_eq_ok_iff.mpr ⟨by rwa [hsince], by rwa [hlast]⟩
    have hexists := @memberExistsIn_eq attributes ⟨first, last⟩ hfirst hlast'
    have hanswers (target : Version) (passes : Bool) :
        VersionRange.contains ⟨first, last⟩ target = passes ↔
          Answers target passes (VersionRange.render? ⟨first, last⟩) := by
      constructor
      · rintro rfl
        exact VersionRange.answers_render? ⟨first, last⟩ target
      · exact fun h => (VersionRange.answers_render? ⟨first, last⟩ target).unique h
    refine ⟨VersionRange.render? ⟨first, last⟩, by rw [hrange]; rfl, ?_, ?_⟩
    · intro target
      refine ⟨⟨_, hexists target⟩, fun passes => ?_⟩
      rw [hexists, Except.ok.injEq, hanswers]
    · intro profile
      refine ⟨_, anyVersion_eq_any hexists profile.versions, ?_⟩
      rw [List.any_eq_true]
      simp only [hanswers]
  · intro profile hemits
    obtain ⟨exists_, hstage, hemits⟩ := bind_eq_ok_iff.mp hemits
    cases exists_ with
    | false => cases hemits
    | true =>
      obtain ⟨version, hversion⟩ := exists_of_anyVersion hstage
      obtain ⟨⟨first, hfirst⟩, last, hlast'⟩ := exists_bounds_of_memberExistsIn hversion
      have hrange : type.versionRange = .ok ⟨first, last⟩ :=
        FieldType.versionRange_eq_ok_iff.mpr ⟨by rwa [hsince], by rwa [hlast]⟩
      exact ⟨_, by rw [hrange]; rfl⟩

/-- The attributes of a field from an old version on, in spellings of their own. -/
def oldAttributes : Attributes :=
  .ofList [("name", "Radius"), ("type", "float"), ("ver1", "VV10_1"), ("ver2", "20.2.0.7.5")]

/-- The check of a field whose bounds are written with underscores and with a fifth component. -/
def oldCheck : String :=
  "FileVersion(10, 1, 0, 0) <= _header_version && _header_version <= FileVersion(20, 2, 0, 7)"

/-- A field is kept for the targets up to its last version, and behind that its check fails. -/
theorem memberExistsIn_iff_answers_oldAttributes :
    ∃ type, FieldType.ofAttributes "field" oldAttributes = .ok type ∧
      type.versionRange.map VersionRange.render? = .ok (some oldCheck) ∧
      memberExistsIn oldAttributes ⟨20, 2, 0, 7⟩ = .ok true ∧
      Answers ⟨20, 2, 0, 7⟩ true (some oldCheck) ∧
      memberExistsIn oldAttributes ⟨20, 2, 0, 8⟩ = .ok false ∧
      Answers ⟨20, 2, 0, 8⟩ false (some oldCheck) ∧
      Profile.default.emitsMember oldAttributes = .ok true := by
  obtain ⟨type, htype, hbounded, hkept⟩ :=
    @memberExistsIn_iff_answers oldAttributes "field" (by decide)
  have hbounds : ∀ key ∈ ["ver1", "ver2"], ∀ text ∈ oldAttributes.get? key,
      ∃ bound, Version.parse text = .ok bound := by
    simp only [List.mem_cons, List.not_mem_nil, or_false, forall_eq_or_imp, forall_eq]
    refine ⟨fun text htext => ?_, fun text htext => ?_⟩
    · cases htext
      exact ⟨⟨10, 1, 0, 0⟩, by decide +kernel⟩
    · cases htext
      exact ⟨⟨20, 2, 0, 7⟩, by decide +kernel⟩
  obtain ⟨check, hcheck, hanswers, hstage⟩ := hbounded hbounds
  have hof : FieldType.ofAttributes "field" oldAttributes =
      .ok { base := "f32", since := some "VV10_1", last := some "20.2.0.7.5" } := by
    decide +kernel
  have hold : type.versionRange.map VersionRange.render? = .ok (some oldCheck) := by
    rw [hof, Except.ok.injEq] at htype
    rw [← htype]
    decide +kernel
  rw [hold, Except.ok.injEq] at hcheck
  subst hcheck
  have hlast : memberExistsIn oldAttributes ⟨20, 2, 0, 7⟩ = .ok true := by decide +kernel
  have hnext : memberExistsIn oldAttributes ⟨20, 2, 0, 8⟩ = .ok false := by decide +kernel
  exact ⟨type, htype, hold, hlast, ((hanswers _).2 _).mp hlast, hnext, ((hanswers _).2 _).mp hnext,
    by decide +kernel⟩

end Profile

end NifBindings
