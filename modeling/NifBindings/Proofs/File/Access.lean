import NifBindings.Proofs.File.Growth

/-!
# Steps on files

What a program relies on when it takes steps on files. The state of a file system may hold more than
its tree of files, and every step may fail at any time for reasons that the tree does not show. But
only two steps change the tree: making directories only adds directories on the way, and a text is
written completely or not at all.
-/

namespace NifBindings

/-- Steps on a state take place one after the other. -/
theorem run_bind_eq {σ α β : Type} (first : StateM σ α) (next : α → StateM σ β) (state : σ) :
    (first >>= next).run state = (next (first.run state).1).run (first.run state).2 :=
  rfl

namespace FileAccess

/-- Whether the steps on files act on the tree of files that a state holds. -/
structure ActsOn {σ : Type} [FileAccess (StateM σ)] (tree : σ → FileTree) : Prop where
  /-- Asking whether something is there changes nothing. -/
  isPresent {path : String} {state next : σ} {answer : Bool}
    (h : (FileAccess.isPresent (m := StateM σ) path).run state = (answer, next)) :
    tree next = tree state
  /-- Asking for a directory changes nothing. -/
  isDirectory {path : String} {state next : σ} {answer : Bool}
    (h : (FileAccess.isDirectory (m := StateM σ) path).run state = (answer, next)) :
    tree next = tree state
  /-- Reading changes nothing. -/
  readText {path : String} {state next : σ} {result : Except FileFault String}
    (h : (FileAccess.readText (m := StateM σ) path).run state = (result, next)) :
    tree next = tree state
  /-- A text that was read is that of the file. -/
  readText_of_ok {path text : String} {state next : σ}
    (h : (FileAccess.readText (m := StateM σ) path).run state = (.ok text, next)) :
    (tree state).readText path = .ok text
  /-- Making directories only adds directories on the way, even if it fails. -/
  makeDirectories {path : String} {state next : σ} {result : Except FileFault Unit}
    (h : (FileAccess.makeDirectories (m := StateM σ) path).run state = (result, next)) :
    FileTree.Grows (FileTree.segments path) (tree state) (tree next)
  /-- Writing gives the file its text if it succeeds. -/
  writeText_of_ok {path text : String} {state next : σ}
    (h : (FileAccess.writeText (m := StateM σ) path text).run state = (.ok (), next)) :
    (tree state).writeText path text = .ok (tree next)
  /-- Writing changes nothing if it fails. -/
  writeText_of_error {path text : String} {state next : σ} {fault : FileFault}
    (h : (FileAccess.writeText (m := StateM σ) path text).run state = (.error fault, next)) :
    tree next = tree state

end FileAccess

/-- Writing into a tree leaves the new tree, or the old one if it fails. -/
theorem run_writeText (tree : FileTree) (path text : String) :
    (FileAccess.writeText (m := StateM FileTree) path text).run tree =
      match tree.writeText path text with
      | .ok grown => (.ok (), grown)
      | .error fault => (.error fault, tree) := by
  change ((do
    match tree.writeText path text with
    | .ok grown =>
      set grown
      return .ok ()
    | .error fault => return .error fault : StateM FileTree (Except FileFault Unit))).run tree = _
  cases tree.writeText path text <;> rfl

/-- The steps on a tree of files act on this tree. -/
theorem FileTree.actsOn : FileAccess.ActsOn (id : FileTree → FileTree) where
  isPresent := by
    rintro path tree next answer ⟨⟩
    rfl
  isDirectory := by
    rintro path tree next answer ⟨⟩
    rfl
  readText := by
    rintro path tree next result ⟨⟩
    rfl
  readText_of_ok h := (Prod.mk.inj h).1
  makeDirectories := by
    rintro path tree next result ⟨⟩
    exact tree.grows_makeDirectories path
  writeText_of_ok {path text tree next} h := by
    rw [run_writeText] at h
    split at h
    next grown hwrite =>
      cases h
      exact hwrite
    next => cases h
  writeText_of_error {path text tree next fault} h := by
    rw [run_writeText] at h
    split at h
    next => cases h
    next =>
      cases h
      rfl

end NifBindings
