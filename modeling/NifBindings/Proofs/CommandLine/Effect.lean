import NifBindings.Proofs.File.Writing
import NifBindings.Proofs.CommandLine.Run

/-!
# What a run does to the files

A run reads first and makes the bindings as a whole. Whatever fails until then leaves every file as
it is, and so does a dry run. What a run writes are the five sources that the files give, in their
order, up to the first fault.
-/

namespace NifBindings

open FileTree

variable {σ : Type} [FileAccess (StateM σ)] {tree : σ → FileTree}

/-- Making the model of a file changes nothing, and a model that was made is that of the file. -/
theorem Model.of_run_ofFile (hacts : FileAccess.ActsOn tree) {profile : Profile} {path : String}
    {state next : σ} {result : Except ModelError Model}
    (h : (ofFile (m := StateM σ) profile path).run state = (result, next)) :
    tree next = tree state ∧
      ∀ model, result = .ok model → ofFileIn (tree state) profile path = .ok model := by
  unfold ofFile at h
  rw [run_bind_eq] at h
  rcases hread : (FileAccess.readText (m := StateM σ) path).run state with ⟨text, after⟩
  have hsame := hacts.readText hread
  rw [hread] at h
  cases text with
  | error fault =>
    cases h
    exact ⟨hsame, nofun⟩
  | ok text =>
    cases h
    refine ⟨hsame, fun model hmodel => ?_⟩
    rw [ofFileIn, hacts.readText_of_ok hread]
    exact hmodel

/-- Whether a failure arises before anything is written. -/
def Failure.PrecedesWriting : Failure → Prop
  | .writingBindings _ _ => False
  | _ => True

namespace Options

/-- Whether the profile and the schema in a tree of files give certain sources: the five texts of
the bindings, each under the name of its file, in the order in which they are written. -/
def Gives (options : Options) (tree : FileTree) (sources : List (String × String)) : Prop :=
  ∃ profile model bindings, options.profileIn tree = .ok profile ∧
    Model.ofFileIn tree profile options.xml = .ok model ∧
    Bindings.ofModel profile model = .ok bindings ∧
    sources = [("bitflags.rs", bindings.bitFlags), ("enums.rs", bindings.enumerations),
      ("bitfields.rs", bindings.bitFields), ("compounds.rs", bindings.compounds),
      ("objects.rs", bindings.objects)]

/-- What a run does to a tree of files, by its outcome. A run that has written leaves the sources
that the files gave, one that fails to write leaves those before the fault, and every other one
changes nothing. -/
def Effect (options : Options) (before after : FileTree) : Except Failure Summary → Prop
  | .ok summary =>
    if summary.written then
      ∃ directory sources, options.outDir = some directory ∧ options.dryRun = false ∧
        options.Gives before sources ∧ Leaves directory sources before after
    else after = before
  | .error (.writingBindings directory _) =>
    options.outDir = some directory ∧ options.dryRun = false ∧
      ∃ sources, options.Gives before sources ∧
        ∃ count < sources.length, Leaves directory (sources.take count) before after
  | .error _ => after = before

variable {options : Options} {state next : σ}

/-- Targets that are refused are refused before anything is written. -/
theorem precedesWriting_of_applyTargets {profile : Profile} {failure : Failure}
    (h : options.applyTargets profile = .error failure) : failure.PrecedesWriting := by
  have hversions : ∀ versions : List Version,
      (if versions.isEmpty then .error .noVersions else .ok (profile.withVersions versions)) =
        (.error failure : Except Failure Profile) → failure.PrecedesWriting := by
    intro versions hnone
    split at hnone
    · cases hnone
      trivial
    · cases hnone
  unfold applyTargets at h
  dsimp only at h
  split at h
  · exact hversions profile.versions h
  · rcases bind_eq_error_iff.mp h with htargets | ⟨versions, -, h⟩
    · obtain ⟨text, -, htext⟩ := exists_error_of_mapM htargets
      obtain ⟨error, -, rfl⟩ := mapError_eq_error_iff.mp htext
      trivial
    · exact hversions versions h

/-- Loading the profile changes nothing, and a profile that was loaded is that of the file. -/
theorem of_run_loadProfile (hacts : FileAccess.ActsOn tree) {result : Except Failure Profile}
    (h : (options.loadProfile (m := StateM σ)).run state = (result, next)) :
    tree next = tree state ∧
      (∀ profile, result = .ok profile → options.profileIn (tree state) = .ok profile) ∧
      ∀ failure, result = .error failure → failure.PrecedesWriting := by
  unfold loadProfile readProfile at h
  unfold profileIn loadProfile readProfile
  cases hfile : options.profile with
  | none =>
    simp only [hfile] at h
    cases h
    exact ⟨rfl, fun _ hprofile => hprofile, fun _ => precedesWriting_of_applyTargets⟩
  | some path =>
    simp only [hfile, run_bind_eq] at h ⊢
    rcases hread : (FileAccess.readText (m := StateM σ) path).run state with ⟨text, after⟩
    have hsame := hacts.readText hread
    rw [hread] at h
    cases text with
    | error fault =>
      cases h
      exact ⟨hsame, nofun, fun _ hfailure => by cases hfailure; trivial⟩
    | ok text =>
      cases h
      rw [run_readText, hacts.readText_of_ok hread]
      refine ⟨hsame, fun _ hprofile => hprofile, fun failure hfailure => ?_⟩
      rcases bind_eq_error_iff.mp hfailure with hparse | ⟨profile, -, htargets⟩
      · obtain ⟨error, -, rfl⟩ := mapError_eq_error_iff.mp hparse
        trivial
      · exact precedesWriting_of_applyTargets htargets

/-- Making the bindings changes nothing, and bindings that were made are those of the model. -/
theorem of_run_make (hacts : FileAccess.ActsOn tree) {profile : Profile}
    {result : Except Failure (Model × Bindings)}
    (h : (options.make (m := StateM σ) profile).run state = (result, next)) :
    tree next = tree state ∧
      (∀ model bindings, result = .ok (model, bindings) →
        Model.ofFileIn (tree state) profile options.xml = .ok model ∧
          Bindings.ofModel profile model = .ok bindings) ∧
      ∀ failure, result = .error failure → failure.PrecedesWriting := by
  unfold make at h
  rw [run_bind_eq] at h
  rcases hmodel : (Model.ofFile (m := StateM σ) profile options.xml).run state with ⟨read, after⟩
  obtain ⟨hsame, hread⟩ := Model.of_run_ofFile hacts hmodel
  rw [hmodel] at h
  cases read with
  | error error =>
    cases h
    exact ⟨hsame, nofun, fun _ hfailure => by cases hfailure; trivial⟩
  | ok model =>
    cases h
    cases hmade : Bindings.ofModel profile model with
    | error error => exact ⟨hsame, nofun, fun _ hfailure => by cases hfailure; trivial⟩
    | ok bindings =>
      refine ⟨hsame, fun other made hresult => ?_, nofun⟩
      cases hresult
      exact ⟨hread model rfl, hmade⟩

/-- Writing the bindings leaves all of them or those before the first fault, if a directory is named
for them and the run is no dry one, and changes nothing otherwise. -/
theorem of_run_write (hacts : FileAccess.ActsOn tree) {bindings : Bindings}
    {result : Except Failure Bool}
    (h : (options.write (m := StateM σ) bindings).run state = (result, next)) :
    (result = .ok false ∧ tree next = tree state) ∨
      ∃ directory, options.outDir = some directory ∧ options.dryRun = false ∧
        ((result = .ok true ∧ Leaves directory bindings.files (tree state) (tree next)) ∨
          ∃ error, result = .error (.writingBindings directory error) ∧
            ∃ count < bindings.files.length,
              Leaves directory (bindings.files.take count) (tree state) (tree next)) := by
  unfold write at h
  split at h
  next directory hdirectory hdry =>
    rw [run_bind_eq] at h
    rcases hwrite : (bindings.writeTo (m := StateM σ) directory).run state with ⟨outcome, after⟩
    have hleaves := Bindings.attemptLeaves_writeTo hacts bindings hwrite
    rw [hwrite] at h
    refine .inr ⟨directory, hdirectory, hdry, ?_⟩
    cases outcome with
    | ok =>
      cases h
      exact .inl ⟨rfl, hleaves⟩
    | error error =>
      cases h
      exact .inr ⟨error, rfl, hleaves⟩
  next =>
    cases h
    exact .inl ⟨rfl, rfl⟩

/-- A failure before anything is written has no effect. -/
theorem Effect.of_precedesWriting {before after : FileTree} {failure : Failure}
    (hprecedes : failure.PrecedesWriting) (hsame : after = before) :
    options.Effect before after (.error failure) := by
  cases failure with
  | writingBindings => exact hprecedes.elim
  | _ => exact hsame

/-- A dry run has no effect. -/
theorem Effect.eq_of_dryRun {before after : FileTree} {outcome : Except Failure Summary}
    (h : options.Effect before after outcome) (hdry : options.dryRun = true) : after = before := by
  cases outcome with
  | ok summary =>
    simp only [Effect] at h
    split at h
    · obtain ⟨directory, sources, -, hwet, -⟩ := h
      rw [hdry] at hwet
      cases hwet
    · exact h
  | error failure =>
    cases failure with
    | writingBindings directory error =>
      obtain ⟨-, hwet, -⟩ := h
      rw [hdry] at hwet
      cases hwet
    | _ => exact h

/-- A run has the effect that fits its outcome. -/
theorem effect_of_run (hacts : FileAccess.ActsOn tree) {outcome : Except Failure Summary}
    (h : (options.run (m := StateM σ)).run state = (outcome, next)) :
    options.Effect (tree state) (tree next) outcome := by
  unfold run at h
  rw [run_bind_eq] at h
  rcases hload : (options.loadProfile (m := StateM σ)).run state with ⟨loaded, first⟩
  obtain ⟨hfirst, hprofile, hnoProfile⟩ := of_run_loadProfile hacts hload
  rw [hload] at h
  cases loaded with
  | error failure =>
    cases h
    exact .of_precedesWriting (hnoProfile failure rfl) hfirst
  | ok profile =>
    dsimp only at h
    rw [run_bind_eq] at h
    rcases hmake : (options.make (m := StateM σ) profile).run first with ⟨made, second⟩
    obtain ⟨hsecond, hbindings, hnoBindings⟩ := of_run_make hacts hmake
    rw [hmake] at h
    cases made with
    | error failure =>
      cases h
      exact .of_precedesWriting (hnoBindings failure rfl) (hsecond.trans hfirst)
    | ok made =>
      obtain ⟨model, bindings⟩ := made
      obtain ⟨hmodel, hmade⟩ := hbindings model bindings rfl
      rw [hfirst] at hmodel
      have hgives : options.Gives (tree state) bindings.files :=
        ⟨profile, model, bindings, hprofile profile rfl, hmodel, hmade, rfl⟩
      dsimp only at h
      rw [run_bind_eq] at h
      rcases hwrite : (options.write (m := StateM σ) bindings).run second with ⟨written, third⟩
      have heffect := of_run_write hacts hwrite
      rw [hsecond, hfirst] at heffect
      rw [hwrite] at h
      rcases heffect with ⟨rfl, hsame⟩ | ⟨directory, hdirectory, hdry, heffect⟩
      · cases h
        exact hsame
      · rcases heffect with ⟨rfl, hleaves⟩ | ⟨error, rfl, hleaves⟩
        · cases h
          exact ⟨directory, bindings.files, hdirectory, hdry, hgives, hleaves⟩
        · cases h
          exact ⟨hdirectory, hdry, bindings.files, hgives, hleaves⟩

/-- Whatever files there are and whatever step fails, a dry run changes nothing, and every other run
has the effect that fits its outcome. -/
theorem changes_of_run (hacts : FileAccess.ActsOn tree) {outcome : Except Failure Summary}
    (h : (options.run (m := StateM σ)).run state = (outcome, next)) :
    (options.dryRun = true → tree next = tree state) ∧
      options.Effect (tree state) (tree next) outcome := by
  have heffect := effect_of_run hacts h
  exact ⟨heffect.eq_of_dryRun, heffect⟩

/-- An empty schema, and a directory in which one of the sources has the name of a directory. -/
def blockedTree : FileTree :=
  ⟨.ofList [(["nif.xml"], .file "<nif/>".toUTF8), (["out"], .directory),
    (["out", "bitfields.rs"], .directory)]⟩

/-- Options that read the schema and write into a directory. -/
def writing (directory : String) : Options :=
  ⟨"nif.xml", some directory, none, [], false, 0⟩

/-- A new directory takes all of the sources, and the other one those before the name that is
taken. -/
theorem changes_of_run_blockedTree :
    (∃ summary final sources,
      ((writing "out/new").run (m := StateM FileTree)).run blockedTree = (.ok summary, final) ∧
        summary.written = true ∧ (writing "out/new").Gives blockedTree sources ∧
        Leaves "out/new" sources blockedTree final) ∧
    ∃ final sources,
      ((writing "out").run (m := StateM FileTree)).run blockedTree =
          (.error (.writingBindings "out" (.file .isDirectory)), final) ∧
        (writing "out").Gives blockedTree sources ∧
        ∃ count < sources.length, Leaves "out" (sources.take count) blockedTree final := by
  constructor
  · have hwritten : (((writing "out/new").run (m := StateM FileTree)).run
        blockedTree).1.toOption.map Summary.written = some true := by decide +kernel
    rcases hrun : ((writing "out/new").run (m := StateM FileTree)).run blockedTree with
      ⟨outcome, final⟩
    rw [hrun] at hwritten
    obtain ⟨summary, hsummary, hfiles⟩ := Option.map_eq_some_iff.mp hwritten
    cases toOption_eq_some_iff.mp hsummary
    have heffect := (changes_of_run actsOn hrun).2
    rw [Effect, if_pos hfiles] at heffect
    obtain ⟨directory, sources, hdirectory, -, hgives, hleaves⟩ := heffect
    cases hdirectory
    exact ⟨summary, final, sources, rfl, hfiles, hgives, hleaves⟩
  · have hfailed : (((writing "out").run (m := StateM FileTree)).run blockedTree).1 =
        .error (.writingBindings "out" (.file .isDirectory)) := by decide +kernel
    rcases hrun : ((writing "out").run (m := StateM FileTree)).run blockedTree with ⟨outcome, final⟩
    rw [hrun] at hfailed
    cases hfailed
    obtain ⟨-, -, sources, hgives, hleaves⟩ := (changes_of_run actsOn hrun).2
    exact ⟨final, sources, rfl, hgives, hleaves⟩

end Options

end NifBindings
