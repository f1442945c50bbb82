import NifBindings.OrderedMap
import NifBindings.File.Access

/-!
# Trees of files

A tree of files gives every path below its root a file or a directory. Paths are followed segment by
segment, and what stands in the way decides the fault. There are no links, so that no file changes
with another one.
-/

namespace NifBindings

/-- What a path leads to. -/
inductive FileNode where
  | file (content : ByteArray)
  | directory

/-- Whether a node is a directory. -/
def FileNode.isDirectory : FileNode → Bool
  | .directory => true
  | .file _ => false

/-- The files and directories below a root, which is a directory itself and the one that paths start
from. A tree has no links: each node stands under one path. -/
structure FileTree where
  /-- The nodes under their paths. -/
  nodes : OrderedMap (List String) FileNode := OrderedMap.empty

namespace FileTree

/-- The node at a path. -/
def node? (tree : FileTree) (path : List String) : Option FileNode :=
  if path.isEmpty then some .directory else tree.nodes.get? path

/-- The tree with a node at a path. -/
def setNode (tree : FileTree) (path : List String) (node : FileNode) : FileTree :=
  ⟨tree.nodes.insert path node⟩

/-- The segments of a path, between its slashes. -/
def segments (path : String) : List String :=
  (path.toList.splitOn '/').map String.ofList

/-- Checks that a path leads to a directory. -/
def requireDirectory (tree : FileTree) (path : List String) : Except FileFault Unit :=
  match tree.node? path with
  | some .directory => .ok ()
  | some (.file _) => .error .notDirectory
  | none => .error .notFound

/-- Where segments lead from a directory. Only the last of them may name something that is not
there. -/
def follow (tree : FileTree) (here : List String) : List String → Except FileFault (List String)
  | [] => .ok here
  | segment :: rest => do
    tree.requireDirectory here
    if segment = "" ∨ segment = "." then tree.follow here rest
    else if segment = ".." then tree.follow here.dropLast rest
    else tree.follow (here ++ [segment]) rest

/-- Where a path leads. An empty path leads nowhere. -/
def locate (tree : FileTree) (path : String) : Except FileFault (List String) :=
  if path.isEmpty then .error .notFound else tree.follow [] (segments path)

/-- What some segments lead to. -/
def lookup? (tree : FileTree) (segments : List String) : Option FileNode :=
  match tree.follow [] segments with
  | .ok path => tree.node? path
  | .error _ => none

/-- What a path leads to. -/
def find? (tree : FileTree) (path : String) : Option FileNode :=
  if path.isEmpty then none else tree.lookup? (segments path)

/-- The text of a file. -/
def readText (tree : FileTree) (path : String) : Except FileFault String := do
  let location ← tree.locate path
  match tree.node? location with
  | none => .error .notFound
  | some .directory => .error .isDirectory
  | some (.file content) =>
    match String.fromUTF8? content with
    | some text => .ok text
    | none => .error .notText

/-- The tree in which a file has a new text. -/
def writeText (tree : FileTree) (path text : String) : Except FileFault FileTree := do
  let location ← tree.locate path
  match tree.node? location with
  | some .directory => .error .isDirectory
  | _ => .ok (tree.setNode location (.file text.toUTF8))

/-- Segments without the empty ones at their end. -/
def withoutTrailing (segments : List String) : List String :=
  (segments.reverse.dropWhile String.isEmpty).reverse

/-- The tree with a new directory where the segments lead. The one above it must be there. -/
def makeDirectory (tree : FileTree) (segments : List String) : Except FileFault FileTree :=
  match (withoutTrailing segments).getLast? with
  | none => .error .alreadyExists
  | some name => do
    let above ← tree.follow [] (withoutTrailing segments).dropLast
    tree.requireDirectory above
    if name = "." ∨ name = ".." then .error .alreadyExists
    else if (tree.node? (above ++ [name])).isSome then .error .alreadyExists
    else .ok (tree.setNode (above ++ [name]) .directory)

/-- Segments without those that lead nowhere else. -/
def properSegments (segments : List String) : List String :=
  segments.filter fun segment => segment != "" && segment != "."

/-- The segments of the directory above, if there is one. -/
def above? (segments : List String) : Option (List String) :=
  match properSegments segments with
  | [] => none
  | proper => some proper.dropLast

/-- The directory above has fewer segments. -/
theorem length_above?_lt {segments above : List String} (h : above? segments = some above) :
    above.length < segments.length := by
  have hle : (properSegments segments).length ≤ segments.length := List.length_filter_le _ _
  unfold above? at h
  split at h
  · cases h
  next hne =>
    cases h
    have : 0 < (properSegments segments).length :=
      List.length_pos_iff.mpr fun hnil => hne hnil
    rw [List.length_dropLast]
    omega

/-- A fault counts for nothing if there is a directory all the same. -/
def excusing (tree : FileTree) (segments : List String) (fault : FileFault) :
    FileTree × Except FileFault Unit :=
  if (tree.lookup? segments).any FileNode.isDirectory then (tree, .ok ()) else (tree, .error fault)

/-- Makes the directory that the segments lead to, and those above it that are missing. -/
def makeAll (tree : FileTree) (segments : List String) : FileTree × Except FileFault Unit :=
  match tree.makeDirectory segments with
  | .ok made => (made, .ok ())
  | .error .notFound =>
    match _habove : above? segments with
    | none => (tree, .error .notFound)
    | some [] => tree.excusing segments .notFound
    | some (first :: rest) =>
      match tree.makeAll (first :: rest) with
      | (grown, .error fault) => (grown, .error fault)
      | (grown, .ok ()) =>
        match grown.makeDirectory segments with
        | .ok made => (made, .ok ())
        | .error fault => grown.excusing segments fault
  | .error fault => tree.excusing segments fault
termination_by segments.length
decreasing_by exact length_above?_lt _habove

/-- Makes the directory at a path, and those above it that are missing. An empty path needs none. -/
def makeDirectories (tree : FileTree) (path : String) : FileTree × Except FileFault Unit :=
  if path.isEmpty then (tree, .ok ()) else tree.makeAll (segments path)

instance : FileAccess (StateM FileTree) where
  isPresent path := do
    return ((← get).find? path).isSome
  isDirectory path := do
    return ((← get).find? path).any FileNode.isDirectory
  readText path := do
    return (← get).readText path
  makeDirectories path := do
    let (grown, result) := (← get).makeDirectories path
    set grown
    return result
  writeText path text := do
    match (← get).writeText path text with
    | .ok grown =>
      set grown
      return .ok ()
    | .error fault => return .error fault

end FileTree

end NifBindings
