import NifBindings.Bindings
import NifBindings.Proofs.File.Access

/-!
# Writing files into a directory

Files that are written into one directory under different names do not get in each other's way. So
each one that was written keeps its text, nothing else has changed but for directories on the way,
and a fault leaves the files before it written.
-/

namespace NifBindings

namespace FileTree

variable {before middle after tree : FileTree} {directory path text : String}
  {files : List (String × String)}

/-- Writing sets the file at the location of its path, where there is no directory and which is
therefore not the root. -/
theorem exists_of_writeText (h : tree.writeText path text = .ok after) :
    ∃ location, tree.locate path = .ok location ∧ location ≠ [] ∧
      tree.node? location ≠ some .directory ∧
      after = tree.setNode location (.file text.toUTF8) := by
  obtain ⟨location, hlocate, h⟩ := bind_eq_ok_iff.mp h
  split at h
  next => cases h
  next hnode =>
    cases h
    refine ⟨location, hlocate, ?_, hnode, rfl⟩
    rintro rfl
    exact hnode node?_nil

/-- Writing a file changes the node at the destination of its path only. -/
theorem node?_of_writeText (h : tree.writeText path text = .ok after) {location : List String}
    (hlocation : location ≠ destination (segments path)) :
    after.node? location = tree.node? location := by
  obtain ⟨written, hlocate, hroot, -, rfl⟩ := exists_of_writeText h
  rw [node?_setNode hroot, if_neg]
  rw [eq_destination_of_locate hlocate]
  exact hlocation.symm

/-- Writing a file keeps the directories. -/
theorem keepsDirectories_of_writeText (h : tree.writeText path text = .ok after) :
    KeepsDirectories tree after := by
  obtain ⟨written, -, hroot, hnode, rfl⟩ := exists_of_writeText h
  intro location hdirectory
  rw [node?_setNode hroot, if_neg, hdirectory]
  rintro rfl
  exact hnode hdirectory

/-- A file that was written has its text. -/
theorem find?_of_writeText (h : tree.writeText path text = .ok after) :
    after.find? path = some (.file text.toUTF8) := by
  have hkeeps := keepsDirectories_of_writeText h
  obtain ⟨written, hlocate, hroot, -, rfl⟩ := exists_of_writeText h
  refine find?_eq_some_iff.mpr ⟨written, hkeeps.locate hlocate, ?_⟩
  rw [node?_setNode hroot, if_pos rfl]

/-- What writing some files into a directory leaves: each of them has its text, and everything else
is as before, apart from new directories on the way to the directory. -/
structure Leaves (directory : String) (files : List (String × String)) (before after : FileTree) :
    Prop where
  /-- Every file has its text. -/
  written : ∀ file ∈ files,
    after.find? (pathIn directory file.1) = some (.file file.2.toUTF8)
  /-- Everything else is as before or a new directory. -/
  unchanged : ∀ location,
    (∀ file ∈ files, location ≠ destination (segments (pathIn directory file.1))) →
      GrowsAt (segments directory) before after location
  /-- No directory is lost. -/
  keepsDirectories : KeepsDirectories before after

/-- What an attempt to write some files leaves: all of them if it succeeds, and those before one of
them if it fails. -/
def AttemptLeaves {ε : Type} (directory : String) (files : List (String × String))
    (before after : FileTree) : Except ε Unit → Prop
  | .ok () => Leaves directory files before after
  | .error _ => ∃ count < files.length, Leaves directory (files.take count) before after

/-- Whether files can stand side by side in one directory. -/
structure Distinct (files : List (String × String)) : Prop where
  isName : ∀ file ∈ files, IsName file.1
  nodup : (files.map Prod.fst).Nodup

/-- Files that can stand side by side can do so without those behind them. -/
theorem Distinct.left {front back : List (String × String)} (h : Distinct (front ++ back)) :
    Distinct front where
  isName file hfile := h.isName file (List.mem_append_left back hfile)
  nodup := by
    have hnodup := h.nodup
    rw [List.map_append] at hnodup
    exact (List.nodup_append.mp hnodup).1

/-- Making directories leaves no file. -/
theorem Grows.leaves (h : Grows (segments directory) before after) :
    Leaves directory [] before after where
  written := nofun
  unchanged location _ := h location
  keepsDirectories := h.keepsDirectories

/-- Writing one more file of another name leaves those before it as they are. -/
theorem Leaves.concat (hleaves : Leaves directory files before middle) {file : String × String}
    (hdistinct : Distinct (files ++ [file]))
    (hwrite : middle.writeText (pathIn directory file.1) file.2 = .ok after) :
    Leaves directory (files ++ [file]) before after where
  written other hother := by
    rcases List.mem_append.mp hother with hother | hother
    · refine (keepsDirectories_of_writeText hwrite).find? (hleaves.written other hother) ?_
      refine node?_of_writeText hwrite fun hsame => ?_
      rw [destination_pathIn directory (hdistinct.isName other (by simp [hother])),
        destination_pathIn directory (hdistinct.isName file (by simp))] at hsame
      have hname : other.1 = file.1 := by simpa using hsame
      have hnodup := hdistinct.nodup
      rw [List.map_append, List.nodup_append] at hnodup
      exact hnodup.2.2 other.1 (List.mem_map_of_mem hother) file.1 (by simp) hname
    · rw [List.mem_singleton.mp hother]
      exact find?_of_writeText hwrite
  unchanged location hlocation := by
    have hmiddle := hleaves.unchanged location fun other hother =>
      hlocation other (List.mem_append_left _ hother)
    have hsame := node?_of_writeText hwrite (hlocation file (by simp))
    rwa [GrowsAt, hsame]
  keepsDirectories location hdirectory :=
    keepsDirectories_of_writeText hwrite location (hleaves.keepsDirectories location hdirectory)

end FileTree

open FileTree

namespace Bindings

/-- The names of the five files, in the order in which they are written. -/
theorem map_fst_files (bindings : Bindings) :
    bindings.files.map Prod.fst =
      ["bitflags.rs", "enums.rs", "bitfields.rs", "compounds.rs", "objects.rs"] :=
  rfl

/-- The five files can stand side by side. -/
theorem distinct_files (bindings : Bindings) : Distinct bindings.files where
  isName file hfile := by
    have hall : ∀ name ∈ ["bitflags.rs", "enums.rs", "bitfields.rs", "compounds.rs", "objects.rs"],
        IsName name := by
      decide
    rw [← map_fst_files bindings] at hall
    exact hall file.1 (List.mem_map_of_mem hfile)
  nodup := by
    rw [map_fst_files]
    decide

variable {σ : Type} [FileAccess (StateM σ)] {tree : σ → FileTree}

/-- The first fault ends a run of writes. -/
theorem run_writeFiles_cons (directory : String) (file : String × String)
    (rest : List (String × String)) (state : σ) :
    (writeFiles (m := StateM σ) directory (file :: rest)).run state =
      match (FileAccess.writeText (m := StateM σ) (pathIn directory file.1) file.2).run state with
      | (.ok (), next) => (writeFiles (m := StateM σ) directory rest).run next
      | (.error fault, next) => (.error fault, next) := by
  rw [writeFiles, run_bind_eq]
  rcases (FileAccess.writeText (m := StateM σ) (pathIn directory file.1) file.2).run state with
    ⟨_ | ⟨⟨⟩⟩, next⟩ <;> rfl

/-- A run of writes leaves the files up to the first fault behind those that were there. -/
theorem attemptLeaves_writeFiles (hacts : FileAccess.ActsOn tree) {directory : String}
    {done rest : List (String × String)} {before : FileTree} {state final : σ}
    {outcome : Except FileFault Unit}
    (h : (writeFiles (m := StateM σ) directory rest).run state = (outcome, final))
    (hleaves : Leaves directory done before (tree state))
    (hdistinct : Distinct (done ++ rest)) :
    AttemptLeaves directory (done ++ rest) before (tree final) outcome := by
  -- The files that are left are written in turn. The invariant is what those done so far leave.
  induction rest generalizing done state with
  | nil =>
    cases h
    rw [List.append_nil]
    exact hleaves
  | cons file rest ih =>
    rw [List.append_cons] at hdistinct ⊢
    rw [run_writeFiles_cons] at h
    rcases hwrite : (FileAccess.writeText (m := StateM σ) (pathIn directory file.1) file.2).run
      state with ⟨result, next⟩
    rw [hwrite] at h
    cases result with
    | ok =>
      exact ih h (hleaves.concat hdistinct.left (hacts.writeText_of_ok hwrite)) hdistinct
    | error fault =>
      cases h
      refine ⟨done.length, by simp, ?_⟩
      rw [List.append_assoc, List.take_left, hacts.writeText_of_error hwrite]
      exact hleaves

/-- Writing the sources into a directory leaves all of them, or those before the first fault. -/
theorem attemptLeaves_writeTo (hacts : FileAccess.ActsOn tree) (bindings : Bindings)
    {directory : String} {state final : σ} {outcome : Except BindingsError Unit}
    (h : (bindings.writeTo (m := StateM σ) directory).run state = (outcome, final)) :
    AttemptLeaves directory bindings.files (tree state) (tree final) outcome := by
  unfold writeTo at h
  simp only [run_bind_eq] at h
  rcases hpresent : (FileAccess.isPresent (m := StateM σ) directory).run state with ⟨present, first⟩
  rcases hdirectory : (FileAccess.isDirectory (m := StateM σ) directory).run first with
    ⟨isDirectory, second⟩
  have hasked : tree second = tree state :=
    (hacts.isDirectory hdirectory).trans (hacts.isPresent hpresent)
  simp only [hpresent, hdirectory] at h
  split at h
  next =>
    cases h
    exact ⟨0, Nat.succ_pos 4, hasked ▸ (Grows.refl _ _).leaves⟩
  next =>
    rw [run_bind_eq] at h
    rcases hmake : (FileAccess.makeDirectories (m := StateM σ) directory).run second with
      ⟨made, third⟩
    have hgrows : Leaves directory [] (tree state) (tree third) :=
      hasked ▸ (hacts.makeDirectories hmake).leaves
    rw [hmake] at h
    cases made with
    | error fault =>
      cases h
      exact ⟨0, Nat.succ_pos 4, hgrows⟩
    | ok =>
      dsimp only at h
      rw [run_bind_eq] at h
      rcases hwrite : (writeFiles (m := StateM σ) directory bindings.files).run third with
        ⟨result, last⟩
      have hwritten := attemptLeaves_writeFiles hacts hwrite hgrows bindings.distinct_files
      rw [hwrite] at h
      cases h
      cases result <;> exact hwritten

end Bindings

end NifBindings
