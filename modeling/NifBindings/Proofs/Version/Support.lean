import NifBindings.Proofs.Version.Selection

/-!
# More target versions

A profile with more target versions, in any order, generates every member that it generates with
fewer. For structures this rests on the versions that they list themselves. The targets are tried
one after the other and each of them is compared with the listed texts only up to the first that it
equals, so that a text that is no version counts for those targets alone that come so far.
-/

namespace NifBindings

variable {attributes : Attributes} {version : Version}

/-- A check that decides about every version of a list and is passed by one of them is passed by
some version. -/
theorem anyVersion_eq_true {check : Version → Except InputError Bool} {versions : List Version}
    (hdecides : ∀ other ∈ versions, ∃ answer, check other = .ok answer)
    (hmem : version ∈ versions) (hpasses : check version = .ok true) :
    anyVersion check versions = .ok true := by
  induction versions with
  | nil => cases hmem
  | cons first rest ih =>
    obtain ⟨⟨answer, hanswer⟩, hdecides⟩ := List.forall_mem_cons.mp hdecides
    rw [anyVersion, hanswer]
    cases answer with
    | true => rfl
    | false =>
      rcases List.mem_cons.mp hmem with rfl | hmem
      · rw [hpasses] at hanswer
        cases hanswer
      · exact ih hdecides hmem

/-- A text that is no version is the error of reading it. -/
theorem Version.parse_eq_error {text : String} {error : InputError}
    (h : parse text = .error error) : error = .version text := by
  unfold parse at h
  split at h
  · cases h
  · cases h
    rfl

/-- Whether a text is a version. -/
def IsVersion (text : String) : Prop :=
  ∃ version, Version.parse text = .ok version

/-- A version is compared with the texts of a list up to the first that it equals or that is no
version. -/
theorem Version.isListed_cases (version : Version) (texts : List String) :
    version.isListed texts = .ok true ∨
      (version.isListed texts = .ok false ∧ ∀ text ∈ texts, IsVersion text) ∨
      ∃ text ∈ texts, ¬IsVersion text ∧ version.isListed texts = .error (.version text) := by
  induction texts with
  | nil => exact .inr (.inl ⟨rfl, List.forall_mem_nil _⟩)
  | cons text rest ih =>
    rw [isListed, relationTo]
    cases hparse : parse text with
    | error error =>
      have herror := parse_eq_error hparse
      refine .inr (.inr ⟨text, List.mem_cons_self, ?_, congrArg Except.error herror⟩)
      rintro ⟨other, hother⟩
      cases hparse.symm.trans hother
    | ok other =>
      by_cases hequal : compare version other = .eq
      · exact .inl (if_pos hequal)
      · have hrest : (do
            let relation ← Except.ok (compare version other)
            if relation = .eq then .ok true else version.isListed rest) =
            version.isListed rest := if_neg hequal
        rcases ih with htrue | ⟨hfalse, hversions⟩ | ⟨bad, hmem, hbad, herror⟩
        · exact .inl (hrest.trans htrue)
        · exact .inr (.inl ⟨hrest.trans hfalse,
            List.forall_mem_cons.mpr ⟨⟨other, hparse⟩, hversions⟩⟩)
        · exact .inr (.inr ⟨bad, List.mem_cons_of_mem text hmem, hbad, hrest.trans herror⟩)

/-- The texts that the target versions are compared with where a structure lists its versions. A
list that begins with a number sign names a condition and is not compared. -/
def Attributes.listing (attributes : Attributes) : List String :=
  match attributes.get? "versions" with
  | some versions => if Text.beginsWith versions "#" then [] else listedVersions versions
  | none => []

/-- A bound that a version could be compared with decides about every version. -/
theorem Version.exists_relationTo {text : String} {test : Ordering → Bool} {answer : Bool}
    (h : (version.relationTo text).map test = .ok answer) (other : Version) :
    ∃ answer, (other.relationTo text).map test = .ok answer := by
  obtain ⟨bound, hbound⟩ := exists_parse_of_relationTo h
  exact ⟨test (compare other bound), by rw [relationTo, hbound]; rfl⟩

/-- If a structure that lists no versions exists in some version, every other version is decided
about. -/
theorem exists_existsIn (hversions : attributes.get? "versions" = none)
    (h : existsIn attributes version = .ok true) (other : Version) :
    ∃ answer, existsIn attributes other = .ok answer := by
  unfold existsIn at h ⊢
  rw [hversions] at h ⊢
  cases hsince : attributes.get? "since" with
  | none => exact ⟨true, rfl⟩
  | some since =>
    rw [hsince] at h
    obtain ⟨started, hstarted, h⟩ := bind_eq_ok_iff.mp h
    obtain ⟨begun, hbegun⟩ := Version.exists_relationTo hstarted other
    -- The second bound was read, since the version itself lies behind the first one.
    cases started with
    | false => cases h
    | true =>
      cases begun with
      | false => exact ⟨false, bind_eq_ok_iff.mpr ⟨false, hbegun, rfl⟩⟩
      | true =>
        cases huntil : attributes.get? "until" with
        | none => exact ⟨true, bind_eq_ok_iff.mpr ⟨true, hbegun, rfl⟩⟩
        | some last =>
          rw [huntil] at h
          obtain ⟨ended, hended⟩ := Version.exists_relationTo h other
          exact ⟨ended, bind_eq_ok_iff.mpr ⟨true, hbegun, hended⟩⟩

/-- A structure that lists its versions is compared with these alone, or with nothing where the list
begins with a number sign. -/
theorem existsIn_of_versions {list : String} (hversions : attributes.get? "versions" = some list)
    (version : Version) :
    existsIn attributes version =
      if Text.beginsWith list "#" then .ok true else version.isListed (listedVersions list) := by
  unfold existsIn
  rw [hversions]
  cases attributes.get? "since" <;> rfl

/-- If a structure exists in some version, every other version is decided about, unless the
structure lists its versions and a text of the list that is no version comes before the version
itself. -/
theorem existsIn_cases (h : existsIn attributes version = .ok true) (other : Version) :
    existsIn attributes other = .ok true ∨
      (existsIn attributes other = .ok false ∧ ∀ text ∈ attributes.listing, IsVersion text) ∨
      ∃ text ∈ attributes.listing, ¬IsVersion text ∧
        existsIn attributes other = .error (.version text) := by
  unfold Attributes.listing
  cases hversions : attributes.get? "versions" with
  | none =>
    obtain ⟨answer, hanswer⟩ := exists_existsIn hversions h other
    cases answer with
    | true => exact .inl hanswer
    | false => exact .inr (.inl ⟨hanswer, List.forall_mem_nil _⟩)
  | some versions =>
    rw [existsIn_of_versions hversions]
    dsimp only
    by_cases hcondition : Text.beginsWith versions "#" = true
    · exact .inl (if_pos hcondition)
    · rw [if_neg hcondition, if_neg hcondition]
      exact other.isListed_cases (listedVersions versions)

/-- A structure that exists in one of some versions passes the check of all of them exactly if
every text of its own list is a version or the first of the versions passes by itself. Otherwise a
text that is no version is the error. -/
theorem anyVersion_existsIn {versions : List Version} (h : existsIn attributes version = .ok true)
    (hmem : version ∈ versions) :
    (anyVersion (existsIn attributes) versions = .ok true ↔
        (∀ text ∈ attributes.listing, IsVersion text) ∨
          ∃ first ∈ versions.head?, existsIn attributes first = .ok true) ∧
      (anyVersion (existsIn attributes) versions = .ok true ∨
        ∃ text ∈ attributes.listing, ¬IsVersion text ∧
          anyVersion (existsIn attributes) versions = .error (.version text)) := by
  obtain ⟨first, rest, rfl⟩ := List.exists_cons_of_ne_nil (List.ne_nil_of_mem hmem)
  have hhead : (∃ other ∈ (first :: rest).head?, existsIn attributes other = .ok true) ↔
      existsIn attributes first = .ok true := by simp
  rw [hhead]
  rcases existsIn_cases h first with htrue | ⟨hfalse, hversions⟩ | ⟨bad, hbad, hnot, herror⟩
  · have hany : anyVersion (existsIn attributes) (first :: rest) = .ok true := by
      rw [anyVersion, htrue]
      rfl
    exact ⟨iff_of_true hany (.inr htrue), .inl hany⟩
  · have hany : anyVersion (existsIn attributes) (first :: rest) = .ok true := by
      refine anyVersion_eq_true (fun other _ => ?_) hmem h
      rcases existsIn_cases h other with htrue | ⟨hfalse, -⟩ | ⟨bad, hbad, hnot, -⟩
      · exact ⟨true, htrue⟩
      · exact ⟨false, hfalse⟩
      · exact absurd (hversions bad hbad) hnot
    exact ⟨iff_of_true hany (.inl hversions), .inl hany⟩
  · have hany : anyVersion (existsIn attributes) (first :: rest) = .error (.version bad) := by
      rw [anyVersion, herror]
      rfl
    refine ⟨iff_of_false (by simp [hany]) ?_, .inr ⟨bad, hbad, hnot, hany⟩⟩
    rintro (hversions | htrue)
    · exact hnot (hversions bad hbad)
    · cases herror.symm.trans htrue

namespace Profile

variable {profile : Profile} {versions : List Version}

/-- If a member exists in some version, every other version is decided about. -/
theorem exists_memberExistsIn (h : memberExistsIn attributes version = .ok true)
    (other : Version) : ∃ answer, memberExistsIn attributes other = .ok answer := by
  obtain ⟨⟨first, hfirst⟩, last, hlast⟩ := exists_bounds_of_memberExistsIn h
  exact ⟨_, @memberExistsIn_eq attributes ⟨first, last⟩ hfirst hlast other⟩

/-- A member that is generated is generated for more versions. -/
theorem emitsMember_withVersions (hsub : profile.versions ⊆ versions)
    (h : profile.emitsMember attributes = .ok true) :
    (profile.withVersions versions).emitsMember attributes = .ok true := by
  obtain ⟨passes, hpasses, h⟩ := bind_eq_ok_iff.mp h
  cases passes with
  | false => cases h
  | true =>
    obtain ⟨version, hmem, hversion⟩ := exists_mem_of_anyVersion hpasses
    have hmore : anyVersion (memberExistsIn attributes) versions = .ok true :=
      anyVersion_eq_true (fun other _ => exists_memberExistsIn hversion other) (hsub hmem) hversion
    exact bind_eq_ok_iff.mpr ⟨true, hmore, h⟩

/-- A structure that is generated is asked for the versions that it exists in, whatever versions a
profile has. -/
theorem emitsEntry_withVersions (h : profile.emitsEntry attributes = .ok true)
    (versions : List Version) :
    (∃ version ∈ profile.versions, existsIn attributes version = .ok true) ∧
      (profile.withVersions versions).emitsEntry attributes =
        anyVersion (existsIn attributes) versions := by
  unfold emitsEntry at h ⊢
  split at h
  · cases h
  next hskip =>
    split at h
    · cases h
    next hexcludes =>
      exact ⟨exists_mem_of_anyVersion h, (if_neg hskip).trans (if_neg hexcludes)⟩

/-- With more target versions, in any order, every member that was generated is generated. A
structure that was generated is generated exactly if every text in the list of its versions is a
version or the first target passes by itself, and otherwise a text of the list that is no version is
the error. -/
theorem emits_withVersions_iff (hsub : profile.versions ⊆ versions) (attributes : Attributes) :
    (profile.emitsMember attributes = .ok true →
      (profile.withVersions versions).emitsMember attributes = .ok true) ∧
    (profile.emitsEntry attributes = .ok true →
      ((profile.withVersions versions).emitsEntry attributes = .ok true ↔
        (∀ text ∈ attributes.listing, IsVersion text) ∨
          ∃ first ∈ versions.head?, existsIn attributes first = .ok true) ∧
      ((profile.withVersions versions).emitsEntry attributes = .ok true ∨
        ∃ text ∈ attributes.listing, ¬IsVersion text ∧
          (profile.withVersions versions).emitsEntry attributes = .error (.version text))) := by
  refine ⟨emitsMember_withVersions hsub, fun hentry => ?_⟩
  obtain ⟨⟨version, hmem, hversion⟩, hmore⟩ := emitsEntry_withVersions hentry versions
  rw [hmore]
  exact anyVersion_existsIn hversion (hsub hmem)

end Profile

/-- The attributes of a structure that lists two versions in spellings of their own. -/
def listingAttributes : Attributes :=
  .ofList [("name", "SkinData"), ("versions", "V20_2_0_7 20.3.0.9")]

/-- The attributes of a structure that lists the name of a condition behind a version. -/
def mixedAttributes : Attributes :=
  .ofList [("name", "SkinData"), ("versions", "V20_2_0_7 #FO3#")]

/-- The default profile for one version, which takes structures that list versions. -/
def Profile.forVersions (versions : List Version) : Profile :=
  { Profile.default with versions := versions, skipVersionSpecific := false }

namespace Profile

/-- A structure that lists its versions and a member with a first version are generated for an older
target too, which is tried first. -/
theorem emits_withVersions_iff_olderTarget :
    (forVersions [⟨20, 2, 0, 7⟩]).emitsEntry listingAttributes = .ok true ∧
      (forVersions [⟨20, 1, 0, 3⟩, ⟨20, 2, 0, 7⟩]).emitsEntry listingAttributes = .ok true ∧
      (forVersions [⟨20, 2, 0, 7⟩]).emitsMember oldAttributes = .ok true ∧
      (forVersions [⟨20, 1, 0, 3⟩, ⟨20, 2, 0, 7⟩]).emitsMember oldAttributes = .ok true := by
  have hsub : (forVersions [⟨20, 2, 0, 7⟩]).versions ⊆ [⟨20, 1, 0, 3⟩, ⟨20, 2, 0, 7⟩] := by
    decide
  have hentry : (forVersions [⟨20, 2, 0, 7⟩]).emitsEntry listingAttributes = .ok true := by
    decide +kernel
  have hmember : (forVersions [⟨20, 2, 0, 7⟩]).emitsMember oldAttributes = .ok true := by
    decide +kernel
  have hversions : ∀ text ∈ listingAttributes.listing, IsVersion text := by
    have hlisting : listingAttributes.listing = ["V20_2_0_7", "20.3.0.9"] := by decide +kernel
    rw [hlisting]
    simp only [List.mem_cons, List.not_mem_nil, or_false, forall_eq_or_imp, forall_eq]
    exact ⟨⟨⟨20, 2, 0, 7⟩, by decide +kernel⟩, ⟨⟨20, 3, 0, 9⟩, by decide +kernel⟩⟩
  exact ⟨hentry, ((emits_withVersions_iff hsub listingAttributes).2 hentry).1.mpr (.inl hversions),
    hmember, (emits_withVersions_iff hsub oldAttributes).1 hmember⟩

/-- A structure is generated for two targets, but not for the same ones the other way round. -/
theorem not_emitsEntry_reorderedTargets :
    (forVersions [⟨20, 2, 0, 7⟩, ⟨20, 1, 0, 3⟩]).emitsEntry mixedAttributes = .ok true ∧
      forVersions [⟨20, 1, 0, 3⟩, ⟨20, 2, 0, 7⟩] =
        (forVersions [⟨20, 2, 0, 7⟩, ⟨20, 1, 0, 3⟩]).withVersions
          [⟨20, 1, 0, 3⟩, ⟨20, 2, 0, 7⟩] ∧
      (forVersions [⟨20, 2, 0, 7⟩, ⟨20, 1, 0, 3⟩]).versions.Perm
        [⟨20, 1, 0, 3⟩, ⟨20, 2, 0, 7⟩] ∧
      (forVersions [⟨20, 1, 0, 3⟩, ⟨20, 2, 0, 7⟩]).emitsEntry mixedAttributes =
        .error (.version "#FO3#") :=
  ⟨by decide +kernel, rfl, .swap _ _ [], by decide +kernel⟩

end Profile

end NifBindings
