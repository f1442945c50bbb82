import NifBindings.File.Tree
import NifBindings.Proofs.Basic

/-!
# Locations

The location that a path leads to is decided by its segments alone, as far as nothing is missing on
the way. So it stays the same while directories are only added, and the files that are written into
one directory under different names are kept apart.
-/

namespace NifBindings

namespace FileTree

/-- Where one more segment leads. -/
def descend (here : List String) (segment : String) : List String :=
  if segment = "" ∨ segment = "." then here
  else if segment = ".." then here.dropLast
  else here ++ [segment]

/-- The location that segments lead to if nothing is missing on the way. -/
def destination (segments : List String) : List String :=
  segments.foldl descend []

/-- Whether a segment is the name of something in a directory. -/
structure IsName (segment : String) : Prop where
  ne_empty : segment ≠ ""
  ne_dot : segment ≠ "."
  ne_dots : segment ≠ ".."
  noSlash : '/' ∉ segment.toList

instance (segment : String) : Decidable (IsName segment) :=
  decidable_of_iff
    (segment ≠ "" ∧ segment ≠ "." ∧ segment ≠ ".." ∧ '/' ∉ segment.toList)
    ⟨fun ⟨hempty, hdot, hdots, hslash⟩ => ⟨hempty, hdot, hdots, hslash⟩,
      fun ⟨hempty, hdot, hdots, hslash⟩ => ⟨hempty, hdot, hdots, hslash⟩⟩

/-- Segments lead to where the last one leads from the destination of those before it. -/
theorem destination_concat (front : List String) (segment : String) :
    destination (front ++ [segment]) = descend (destination front) segment := by
  rw [destination, List.foldl_append, List.foldl_cons, List.foldl_nil, destination]

/-- A name leads to what is in a directory. -/
theorem descend_of_isName {here : List String} {name : String} (h : IsName name) :
    descend here name = here ++ [name] := by
  rw [descend, if_neg (by simp [h.ne_empty, h.ne_dot]), if_neg h.ne_dots]

variable {tree before after : FileTree}

/-! ## The nodes of a tree -/

/-- The root is a directory. -/
theorem node?_nil : tree.node? [] = some .directory :=
  rfl

/-- A tree with a new node is otherwise as before. -/
theorem node?_setNode {location other : List String} {node : FileNode} (h : location ≠ []) :
    (tree.setNode location node).node? other =
      if location = other then some node else tree.node? other := by
  cases other with
  | nil => rw [if_neg h, node?_nil, node?_nil]
  | cons first rest => exact OrderedMap.get?_insert tree.nodes location (first :: rest) node

/-- What is required to be a directory is one. -/
theorem requireDirectory_eq_ok_iff {location : List String} :
    tree.requireDirectory location = .ok () ↔ tree.node? location = some .directory := by
  unfold requireDirectory
  split <;> simp_all

/-- Whether every directory of a tree is one of another tree. -/
def KeepsDirectories (before after : FileTree) : Prop :=
  ∀ location, before.node? location = some .directory → after.node? location = some .directory

/-! ## Following segments -/

/-- One more segment leads somewhere if it starts from a directory. -/
theorem follow_cons (here : List String) (segment : String) (rest : List String) :
    tree.follow here (segment :: rest) =
      tree.requireDirectory here >>= fun _ => tree.follow (descend here segment) rest := by
  rw [follow, descend]
  refine congrArg (tree.requireDirectory here >>= ·) (funext fun _ => ?_)
  by_cases hstays : segment = "" ∨ segment = "."
  · rw [if_pos hstays, if_pos hstays]
  · rw [if_neg hstays, if_neg hstays]
    exact (apply_ite (tree.follow · rest) _ _ _).symm

/-- Segments that lead somewhere lead to their destination. -/
theorem eq_foldl_of_follow {here segments location : List String}
    (h : tree.follow here segments = .ok location) : location = segments.foldl descend here := by
  induction segments generalizing here with
  | nil =>
    cases h
    rfl
  | cons segment segments ih =>
    rw [follow_cons] at h
    obtain ⟨-, -, h⟩ := bind_eq_ok_iff.mp h
    exact ih h

/-- Segments lead to the same location in a tree that keeps the directories. -/
theorem KeepsDirectories.follow (hkeeps : KeepsDirectories before after)
    {here segments location : List String} (h : before.follow here segments = .ok location) :
    after.follow here segments = .ok location := by
  induction segments generalizing here with
  | nil => exact h
  | cons segment segments ih =>
    rw [follow_cons] at h ⊢
    obtain ⟨⟨⟩, hhere, h⟩ := bind_eq_ok_iff.mp h
    have hdirectory := hkeeps here (requireDirectory_eq_ok_iff.mp hhere)
    exact bind_eq_ok_iff.mpr ⟨(), requireDirectory_eq_ok_iff.mpr hdirectory, ih h⟩

/-- A path that is not empty leads where its segments lead. -/
theorem locate_eq_ok_iff {path : String} {location : List String} :
    tree.locate path = .ok location ↔
      path.isEmpty = false ∧ tree.follow [] (segments path) = .ok location := by
  unfold locate
  cases path.isEmpty <;> simp

/-- What a path leads to is the node at its location. -/
theorem find?_eq_some_iff {path : String} {node : FileNode} :
    tree.find? path = some node ↔
      ∃ location, tree.locate path = .ok location ∧ tree.node? location = some node := by
  unfold find? lookup? locate
  cases path.isEmpty with
  | true => simp
  | false => cases tree.follow [] (segments path) <;> simp

/-- A path that can be located leads to its destination. -/
theorem eq_destination_of_locate {path : String} {location : List String}
    (h : tree.locate path = .ok location) : location = destination (segments path) :=
  eq_foldl_of_follow (locate_eq_ok_iff.mp h).2

/-- A path leads to the same location in a tree that keeps the directories. -/
theorem KeepsDirectories.locate (hkeeps : KeepsDirectories before after) {path : String}
    {location : List String} (h : before.locate path = .ok location) :
    after.locate path = .ok location := by
  obtain ⟨hpath, hfollow⟩ := locate_eq_ok_iff.mp h
  exact locate_eq_ok_iff.mpr ⟨hpath, hkeeps.follow hfollow⟩

/-- A path leads to the same node in a tree that keeps the directories, if the node at its
destination is the same. -/
theorem KeepsDirectories.find? (hkeeps : KeepsDirectories before after) {path : String}
    {node : FileNode} (hfind : before.find? path = some node)
    (hsame : after.node? (destination (segments path)) =
      before.node? (destination (segments path))) :
    after.find? path = some node := by
  obtain ⟨location, hlocate, hnode⟩ := find?_eq_some_iff.mp hfind
  rw [← eq_destination_of_locate hlocate] at hsame
  exact find?_eq_some_iff.mpr ⟨location, hkeeps.locate hlocate, hsame.trans hnode⟩

/-! ## Files in a directory -/

/-- A slash ends the segments before it. -/
theorem segments_append_slash (front back : String) :
    segments (front ++ "/" ++ back) = segments front ++ segments back := by
  have hslash : (front ++ "/" ++ back).toList = front.toList ++ '/' :: back.toList := by
    rw [String.toList_append, String.toList_append, List.append_assoc]
    rfl
  rw [segments, hslash, List.splitOn_eq_splitOnP, List.splitOnP_append_cons _ _ (by rfl),
    ← List.splitOn_eq_splitOnP, ← List.splitOn_eq_splitOnP, List.map_append]
  rfl

/-- A name is a segment. -/
theorem segments_of_isName {name : String} (h : IsName name) : segments name = [name] := by
  rw [segments, List.splitOn_eq_singleton h.noSlash, List.map_singleton, String.ofList_toList]

/-- A slash at the end of a path leads nowhere else. -/
theorem destination_append_slash (path : String) :
    destination (segments (path ++ "/")) = destination (segments path) := by
  have hsegments : segments (path ++ "/") = segments path ++ [""] := by
    rw [← String.append_empty (s := path ++ "/"), segments_append_slash]
    rfl
  rw [hsegments, destination_concat, descend, if_pos (Or.inl rfl)]

/-- A path whose last character is a slash is one with a slash at its end. -/
theorem exists_append_slash {path : String} (h : path.toList.getLast? = some '/') :
    ∃ front, path = front ++ "/" := by
  obtain ⟨front, hfront⟩ := List.getLast?_eq_some_iff.mp h
  exact ⟨String.ofList front, String.toList_injective (by rw [hfront]; simp)⟩

/-- The path of a file in a directory leads to where the directory is, and there to its name. -/
theorem destination_pathIn (directory : String) {name : String} (h : IsName name) :
    destination (segments (pathIn directory name)) =
      destination (segments directory) ++ [name] := by
  unfold pathIn
  split
  next hend =>
    rcases Bool.or_eq_true_iff.mp hend with hempty | hslash
    · rw [String.isEmpty_iff.mp hempty, String.empty_append, segments_of_isName h,
        ← List.nil_append [name], destination_concat, descend_of_isName h]
      rfl
    · obtain ⟨front, rfl⟩ := exists_append_slash (beq_iff_eq.mp hslash)
      rw [segments_append_slash, segments_of_isName h, destination_concat, descend_of_isName h,
        destination_append_slash]
  next =>
    rw [segments_append_slash, segments_of_isName h, destination_concat, descend_of_isName h]

end FileTree

end NifBindings
