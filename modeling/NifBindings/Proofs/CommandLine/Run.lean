import NifBindings.File.Tree
import NifBindings.CommandLine.Run
import NifBindings.Proofs.File.Access
import NifBindings.Proofs.Basic

/-!
# Runs on a tree of files

A run of the generator on a tree of files reads the profile and the schema from the tree as it is
first, and changes it only to write the bindings. So the tree decides which model is made, and the
summary of a run counts the findings of that model.
-/

namespace NifBindings

/-- Reading a file changes nothing. -/
theorem run_readText (tree : FileTree) (path : String) :
    (FileAccess.readText path : StateM FileTree _).run tree = (tree.readText path, tree) :=
  rfl

/-- A file with the bytes of a text holds that text. -/
theorem FileTree.readText_of_node? {tree : FileTree} {path text : String} {location : List String}
    (hlocation : tree.locate path = .ok location)
    (hnode : tree.node? location = some (.file text.toUTF8)) : tree.readText path = .ok text := by
  have htext : String.fromUTF8? text.toUTF8 = some text := dif_pos text.isValidUTF8
  refine bind_eq_ok_iff.mpr ⟨location, hlocation, ?_⟩
  simp only [hnode, htext]

namespace Model

/-- The model of the schema in a file of a tree. -/
def ofFileIn (tree : FileTree) (profile : Profile) (path : String) : Except ModelError Model :=
  match tree.readText path with
  | .error fault => .error (.input (.file fault))
  | .ok text => parse profile text

/-- The model of a schema file is that of the document in its text. -/
theorem ofFileIn_eq_ok_of_parse {tree : FileTree} {profile : Profile} {path text : String}
    {document : Document} {model : Model} (htext : tree.readText path = .ok text)
    (hparse : Document.parse text = .ok document)
    (hmodel : ofDocument profile document = .ok model) :
    ofFileIn tree profile path = .ok model := by
  rw [ofFileIn, htext]
  exact bind_eq_ok_iff.mpr ⟨document, mapError_eq_ok_iff.mpr hparse, hmodel⟩

/-- Making the model of a file changes nothing. -/
theorem run_ofFile (tree : FileTree) (profile : Profile) (path : String) :
    (ofFile profile path : StateM FileTree _).run tree = (ofFileIn tree profile path, tree) := by
  unfold ofFile ofFileIn
  rw [run_bind_eq, run_readText]
  cases tree.readText path <;> rfl

end Model

namespace Options

variable (options : Options) (tree : FileTree)

/-- The profile of a run on a tree. -/
def profileIn : Except Failure Profile :=
  ((options.loadProfile : StateM FileTree _).run tree).1

/-- The profile of a run that names no file is the default one with its targets. -/
theorem profileIn_of_none (h : options.profile = none) :
    options.profileIn tree = options.applyTargets .default := by
  unfold profileIn loadProfile readProfile
  rw [h]
  rfl

/-- Loading the profile changes nothing. -/
theorem run_loadProfile :
    (options.loadProfile : StateM FileTree _).run tree = (options.profileIn tree, tree) := by
  unfold profileIn loadProfile readProfile
  cases options.profile with
  | none => rfl
  | some path =>
    simp only [run_bind_eq, run_readText]
    cases tree.readText path <;> rfl

/-- The outcome of a run, and the tree it leaves. -/
theorem run_eq :
    (options.run : StateM FileTree _).run tree =
      match options.profileIn tree with
      | .error failure => (.error failure, tree)
      | .ok profile =>
        match Model.ofFileIn tree profile options.xml with
        | .error error => (.error (.buildingModel options.xml error), tree)
        | .ok model =>
          match Bindings.ofModel profile model with
          | .error error => (.error (.makingBindings (.input error)), tree)
          | .ok bindings =>
            match (options.write bindings : StateM FileTree _).run tree with
            | (.error failure, final) => (.error failure, final)
            | (.ok written, final) =>
              (.ok ⟨conflictCount model.diagnostics, profile.manualCompounds, written⟩, final) := by
  unfold run
  rw [run_bind_eq, run_loadProfile]
  cases options.profileIn tree with
  | error failure => rfl
  | ok profile =>
    simp only [make, run_bind_eq, Model.run_ofFile]
    cases Model.ofFileIn tree profile options.xml with
    | error error => rfl
    | ok model =>
      dsimp only
      cases Bindings.ofModel profile model with
      | error error => rfl
      | ok bindings =>
        change (options.write bindings >>= _ : StateM FileTree _).run tree = _
        rw [run_bind_eq]
        dsimp only
        rcases (options.write bindings : StateM FileTree _).run tree with
          ⟨_ | written, final⟩ <;> rfl

/-- The summary of a run counts the findings about fields of the model that the tree gives it. -/
theorem conflicts_of_run {options : Options} {tree final : FileTree} {summary : Summary}
    {profile : Profile} {model : Model}
    (h : (options.run : StateM FileTree _).run tree = (.ok summary, final))
    (hprofile : options.profileIn tree = .ok profile)
    (hmodel : Model.ofFileIn tree profile options.xml = .ok model) :
    summary.conflicts = conflictCount model.diagnostics := by
  rw [run_eq, hprofile] at h
  simp only [hmodel] at h
  cases hbindings : Bindings.ofModel profile model with
  | error error =>
    simp only [hbindings] at h
    cases h
  | ok bindings =>
    simp only [hbindings] at h
    rcases hwrite : (options.write bindings : StateM FileTree _).run tree with
      ⟨failure | written, other⟩
    · simp only [hwrite] at h
      cases h
    · simp only [hwrite] at h
      cases h
      rfl

/-- A dry run whose bindings can be made ends well and changes nothing. -/
theorem run_of_dryRun {options : Options} {tree : FileTree} {profile : Profile} {model : Model}
    {bindings : Bindings} (hdry : options.dryRun = true)
    (hprofile : options.profileIn tree = .ok profile)
    (hmodel : Model.ofFileIn tree profile options.xml = .ok model)
    (hbindings : Bindings.ofModel profile model = .ok bindings) :
    (options.run : StateM FileTree _).run tree =
      (.ok ⟨conflictCount model.diagnostics, profile.manualCompounds, false⟩, tree) := by
  have hwrite : (options.write bindings : StateM FileTree _).run tree = (.ok false, tree) := by
    unfold write
    rw [hdry]
    cases options.outDir <;> rfl
  rw [run_eq, hprofile]
  simp only [hmodel, hbindings, hwrite]

end Options

end NifBindings
