import Mathlib.Data.List.DropRight
import NifBindings.Proofs.File.Location

/-!
# Making directories

Making a directory makes those above it first, and it can fail at any of them. Either way it
replaces nothing: a tree only grows by directories on the way to the one that was asked for.
-/

namespace NifBindings

namespace FileTree

/-- Whether a location lies on the way that segments lead, with their destination itself. -/
def OnTheWay (segments location : List String) : Prop :=
  ∃ front, front <+: segments ∧ location = destination front

/-- Whether a location is as before, or has a new directory that is on the way. -/
def GrowsAt (segments : List String) (before after : FileTree) (location : List String) : Prop :=
  after.node? location = before.node? location ∨
    before.node? location = none ∧ after.node? location = some .directory ∧
      OnTheWay segments location

/-- Whether a tree is as before apart from new directories on the way. -/
def Grows (segments : List String) (before after : FileTree) : Prop :=
  ∀ location, GrowsAt segments before after location

variable {tree before middle after : FileTree} {segments location : List String}

namespace Grows

/-- A tree that stays as it is does not grow. -/
theorem refl (segments : List String) (tree : FileTree) : Grows segments tree tree :=
  fun _ => .inl rfl

/-- A tree grows step by step. -/
theorem trans (hfirst : Grows segments before middle) (hsecond : Grows segments middle after) :
    Grows segments before after := by
  intro location
  rcases hsecond location with hsame | ⟨hnone, hmade, hway⟩
  · rcases hfirst location with hold | ⟨hnone, hmade, hway⟩
    · exact .inl (hsame.trans hold)
    · exact .inr ⟨hnone, hsame.trans hmade, hway⟩
  · rcases hfirst location with hold | ⟨-, hdirectory, -⟩
    · exact .inr ⟨hold.symm.trans hnone, hmade, hway⟩
    · rw [hdirectory] at hnone
      cases hnone

/-- What is on the way to a directory above is on the way. -/
theorem mono {others : List String}
    (hway : ∀ location, OnTheWay others location → OnTheWay segments location)
    (h : Grows others before after) : Grows segments before after :=
  fun location => (h location).imp_right fun ⟨hnone, hmade, hother⟩ =>
    ⟨hnone, hmade, hway location hother⟩

/-- A tree that grows keeps its directories. -/
theorem keepsDirectories (h : Grows segments before after) : KeepsDirectories before after := by
  intro location hdirectory
  rcases h location with hsame | ⟨-, hmade, -⟩
  · rw [hsame, hdirectory]
  · exact hmade

end Grows

/-- Segments that lead nowhere else can be left out. -/
theorem destination_properSegments (segments : List String) :
    destination (properSegments segments) = destination segments := by
  unfold destination properSegments
  rw [List.foldl_filter]
  refine congrArg (List.foldl · [] segments) (funext fun here => funext fun segment => ?_)
  unfold descend
  by_cases hempty : segment = "" <;> by_cases hdot : segment = "." <;> simp [hempty, hdot]

/-- The way to the directory above is part of the way. -/
theorem onTheWay_of_above? {above : List String} (habove : above? segments = some above)
    (h : OnTheWay above location) : OnTheWay segments location := by
  obtain ⟨front, hfront, rfl⟩ := h
  have hproper : above <+: properSegments segments := by
    unfold above? at habove
    split at habove
    · cases habove
    · cases habove
      exact List.dropLast_prefix _
  obtain ⟨rest, hrest⟩ := hfront.trans hproper
  obtain ⟨start, others, hsegments, hstart, -⟩ := List.filter_eq_append_iff.mp hrest.symm
  refine ⟨start, ⟨others, hsegments.symm⟩, ?_⟩
  rw [← hstart]
  exact destination_properSegments start

/-- Segments without the empty ones at their end are a front of them that does not end with an empty
one. -/
theorem front_of_withoutTrailing {name : String}
    (h : (withoutTrailing segments).getLast? = some name) :
    (withoutTrailing segments).dropLast ++ [name] <+: segments ∧ name ≠ "" := by
  have hdropped : withoutTrailing segments = segments.rdropWhile String.isEmpty := rfl
  obtain ⟨front, hfront⟩ := List.getLast?_eq_some_iff.mp h
  constructor
  · rw [hfront, List.dropLast_concat, ← hfront, hdropped]
    exact List.rdropWhile_prefix String.isEmpty segments
  · rintro rfl
    rw [hdropped] at hfront
    have hnot := List.rdropWhile_last_not String.isEmpty segments (by simp [hfront])
    simp [hfront] at hnot

/-- Making one directory makes it at a location on the way where there was nothing. -/
theorem exists_of_makeDirectory {made : FileTree} (h : tree.makeDirectory segments = .ok made) :
    ∃ location, location ≠ [] ∧ tree.node? location = none ∧ OnTheWay segments location ∧
      made = tree.setNode location .directory := by
  unfold makeDirectory at h
  split at h
  next => cases h
  next name hname =>
    obtain ⟨hfront, hempty⟩ := front_of_withoutTrailing hname
    obtain ⟨above, hfollow, h⟩ := bind_eq_ok_iff.mp h
    obtain ⟨⟨⟩, -, h⟩ := bind_eq_ok_iff.mp h
    split at h
    next => cases h
    next hdots =>
      split at h
      next => cases h
      next hnone =>
        cases h
        refine ⟨above ++ [name], by simp, Option.not_isSome_iff_eq_none.mp hnone,
          ⟨_, hfront, ?_⟩, rfl⟩
        rw [destination_concat, descend, if_neg (by tauto), if_neg (by tauto),
          eq_foldl_of_follow hfollow, destination]

/-- Making one directory only adds a directory on the way. -/
theorem grows_makeDirectory {made : FileTree} (h : tree.makeDirectory segments = .ok made) :
    Grows segments tree made := by
  obtain ⟨location, hroot, hnone, hway, rfl⟩ := exists_of_makeDirectory h
  intro other
  by_cases hother : location = other
  · subst hother
    exact .inr ⟨hnone, by rw [node?_setNode hroot, if_pos rfl], hway⟩
  · exact .inl (by rw [node?_setNode hroot, if_neg hother])

/-- A fault that is excused or not changes nothing. -/
theorem excusing_fst (tree : FileTree) (segments : List String) (fault : FileFault) :
    (tree.excusing segments fault).1 = tree := by
  unfold excusing
  split <;> rfl

/-- Making a directory and those above it only adds directories on the way to it. -/
theorem grows_makeAll (tree : FileTree) (segments : List String) :
    Grows segments tree (tree.makeAll segments).1 := by
  -- In cases 4 to 6 something above was missing. What was made there is on the way as well, and the
  -- second attempt adds at most one directory.
  fun_induction makeAll tree segments with
  | case1 segments made hmade => exact grows_makeDirectory hmade
  | case2 segments => exact .refl segments tree
  | case3 segments =>
    rw [excusing_fst]
    exact .refl segments tree
  | case4 segments _ first rest habove grown fault hgrown ih =>
    rw [hgrown] at ih
    exact ih.mono fun _ => onTheWay_of_above? habove
  | case5 segments _ first rest habove grown hgrown made hmade ih =>
    rw [hgrown] at ih
    exact (ih.mono fun _ => onTheWay_of_above? habove).trans (grows_makeDirectory hmade)
  | case6 segments _ first rest habove grown hgrown fault hfault ih =>
    rw [hgrown] at ih
    rw [excusing_fst]
    exact ih.mono fun _ => onTheWay_of_above? habove
  | case7 segments fault =>
    rw [excusing_fst]
    exact .refl segments tree

/-- Making a path to a directory only adds directories on the way to it. -/
theorem grows_makeDirectories (tree : FileTree) (path : String) :
    Grows (FileTree.segments path) tree (tree.makeDirectories path).1 := by
  unfold makeDirectories
  split
  · exact .refl _ tree
  · exact grows_makeAll tree _

end FileTree

end NifBindings
