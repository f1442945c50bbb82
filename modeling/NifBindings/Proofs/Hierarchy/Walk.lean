import NifBindings.Proofs.Hierarchy.Cycle

/-!
# The walk below an object

The walk keeps a stack of objects that wait. Without cycles it meets the trees below them one after
the other, each in preorder with siblings in the order of the links. It meets nothing twice, so it
is no longer than the links and ends.
-/

namespace NifBindings.ParentLinks

/-- One step of the walk: the first object that waits is met, and its children wait in its
place. -/
def walkStep (links : ParentLinks) :
    List String × List String → Option (List String × List String)
  | (_, []) => none
  | (met, name :: waiting) => some (met ++ [name], links.children name ++ waiting)

/-- The trees below some objects, one after the other: first an object, then the trees below those
that inherit from it. -/
inductive Preorder (links : ParentLinks) : List String → List String → Prop
  /-- Below no objects there is nothing. -/
  | nil : Preorder links [] []
  /-- The tree below the first object stands before the trees below the others. -/
  | cons {name : String} {others below behind : List String}
      (hbelow : Preorder links (links.children name) below)
      (hbehind : Preorder links others behind) :
      Preorder links (name :: others) (name :: (below ++ behind))

variable {links : ParentLinks} {a b name other : String} {names met waiting : List String}

/-- Distinct objects with the same parent have nothing below them in common. -/
theorem eq_of_common (hacyclic : ∀ name, ¬Relation.TransGen links.IsParent name name)
    (hparents : links.parent? a = links.parent? b)
    (ha : Relation.ReflTransGen links.IsParent other a)
    (hb : Relation.ReflTransGen links.IsParent other b) : a = b := by
  -- One of the two is above the other, and if its parent were too it would be its own ancestor.
  have hup {a b : String} (hparents : links.parent? a = links.parent? b)
      (hreach : Relation.ReflTransGen links.IsParent a b) : a = b := by
    rcases Relation.ReflTransGen.cases_head hreach with heq | ⟨parent, hparent, hback⟩
    · exact heq
    · have hparent' : links.IsParent b parent := ⟨hparents ▸ hparent.1, hparent.2⟩
      exact absurd (Relation.TransGen.head' hparent' hback) (hacyclic b)
  have hunique : Relator.RightUnique links.IsParent := fun _ _ _ h h' => h.unique h'
  rcases Relation.ReflTransGen.total_of_right_unique hunique ha hb with hab | hba
  · exact hup hparents hab
  · exact (hup hparents.symm hba).symm

/-- The children of an object are distinct. -/
theorem nodup_children (links : ParentLinks) (name : String) : (links.children name).Nodup := by
  by_cases hname : name ∈ links.keys
  · rw [children_eq_filter hname]
    exact links.keys_nodup.filter _
  · rw [children_eq_nil hname]
    exact List.nodup_nil

/-- A walk without objects that wait meets nothing. -/
@[simp] theorem walkWithin_nil (children : String → List String) (steps : Nat) :
    walkWithin children steps [] = [] := by
  cases steps <;> rfl

namespace Preorder

/-- The trees below some objects contain these and everything that inherits from them. -/
theorem mem_iff (h : links.Preorder names met) :
    other ∈ met ↔ ∃ name ∈ names, Relation.ReflTransGen links.IsParent other name := by
  induction h with
  | nil => simp
  | @cons name others below behind _ _ ihbelow ihbehind =>
    have hbelow : (other = name ∨ other ∈ below) ↔
        Relation.ReflTransGen links.IsParent other name := by
      rw [ihbelow, Relation.ReflTransGen.cases_tail_iff]
      simp only [mem_children_iff, and_comm, eq_comm]
    rw [List.mem_cons, List.mem_append, ihbehind, ← or_assoc, hbelow]
    simp

/-- Everything in the trees below the children of an object inherits from it. -/
theorem transGen_of_mem (h : links.Preorder (links.children name) met) (hmem : other ∈ met) :
    Relation.TransGen links.IsParent other name := by
  obtain ⟨child, hchild, hreach⟩ := h.mem_iff.mp hmem
  exact .tail' hreach (mem_children_iff.mp hchild)

/-- The trees below objects contain objects only. -/
theorem subset_keys (h : links.Preorder names met) (hnames : names ⊆ links.keys) :
    met ⊆ links.keys := by
  induction h with
  | nil => exact List.nil_subset _
  | @cons name others below behind _ _ ihbelow ihbehind =>
    obtain ⟨hname, hothers⟩ := List.cons_subset.mp hnames
    have hchildren : links.children name ⊆ links.keys := by
      intro child hchild
      exact mem_keys_of_parent? (mem_children_iff.mp hchild).1
    exact List.cons_subset.mpr
      ⟨hname, List.append_subset.mpr ⟨ihbelow hchildren, ihbehind hothers⟩⟩

/-- The trees below distinct objects with the same parent contain no object twice. -/
theorem nodup (hacyclic : ∀ name, ¬Relation.TransGen links.IsParent name name)
    (h : links.Preorder names met) (hnodup : names.Nodup)
    (hparents : ∀ a ∈ names, ∀ b ∈ names, links.parent? a = links.parent? b) : met.Nodup := by
  induction h with
  | nil => exact List.nodup_nil
  | @cons name others below behind hbelow hbehind ihbelow ihbehind =>
    obtain ⟨hnew, hnodup⟩ := List.nodup_cons.mp hnodup
    have hup : ∀ x ∈ below, Relation.TransGen links.IsParent x name := fun x hx =>
      hbelow.transGen_of_mem hx
    -- An object in two of the trees would have two roots, which the same parent makes one.
    have hapart : ∀ x, Relation.ReflTransGen links.IsParent x name → x ∉ behind := by
      intro x hx hmem
      obtain ⟨root, hroot, hreach⟩ := hbehind.mem_iff.mp hmem
      have hsame := hparents name (by simp) root (by simp [hroot])
      rw [eq_of_common hacyclic hsame hx hreach] at hnew
      exact hnew hroot
    have hbelow : below.Nodup := by
      apply ihbelow (nodup_children links name)
      intro a ha b hb
      rw [(mem_children_iff.mp ha).1, (mem_children_iff.mp hb).1]
    have hbehind : behind.Nodup := by
      apply ihbehind hnodup
      intro a ha b hb
      exact hparents a (by simp [ha]) b (by simp [hb])
    have hself : name ∉ below ++ behind := by
      intro hmem
      rcases List.mem_append.mp hmem with hmem | hmem
      · exact hacyclic name (hup name hmem)
      · exact hapart name .refl hmem
    refine List.nodup_cons.mpr ⟨hself, List.nodup_append.mpr ⟨hbelow, hbehind, ?_⟩⟩
    intro x hx y hy hxy
    exact hapart x (hup x hx).to_reflTransGen (hxy ▸ hy)

/-- The walk meets the trees below the objects that wait before it goes on with the rest. -/
theorem reaches (h : links.Preorder names met) (before waiting : List String) :
    Relation.ReflTransGen (fun state next => links.walkStep state = some next)
      (before, names ++ waiting) (before ++ met, waiting) := by
  induction h generalizing before waiting with
  | nil => rw [List.append_nil, List.nil_append]
  | @cons name others below behind _ _ ihbelow ihbehind =>
    have hfirst : links.walkStep (before, name :: others ++ waiting) =
        some (before ++ [name], links.children name ++ (others ++ waiting)) := rfl
    have hbelow := ihbelow (before ++ [name]) (others ++ waiting)
    have hbehind := ihbehind (before ++ [name] ++ below) waiting
    have hmet : before ++ [name] ++ below ++ behind = before ++ name :: (below ++ behind) := by
      simp
    rw [hmet] at hbehind
    exact .head hfirst (hbelow.trans hbehind)

/-- The walk below objects ends when it has met the trees below them. -/
theorem endsIn_walkStep (h : links.Preorder names met) :
    EndsIn links.walkStep ([], names) (met, []) := by
  have hreach := h.reaches [] []
  rw [List.append_nil, List.nil_append] at hreach
  exact ⟨hreach, rfl⟩

/-- With a step for each object in the trees, the walk meets these first. -/
theorem walkWithin_append (h : links.Preorder names met) (steps : Nat) (waiting : List String) :
    walkWithin links.children (met.length + steps) (names ++ waiting) =
      met ++ walkWithin links.children steps waiting := by
  induction h generalizing steps waiting with
  | nil => simp
  | @cons name others below behind _ _ ihbelow ihbehind =>
    have hlength : (name :: (below ++ behind)).length + steps =
        below.length + (behind.length + steps) + 1 := by
      rw [List.length_cons, List.length_append]
      omega
    rw [hlength, List.cons_append, walkWithin, ihbelow, ihbehind, List.cons_append,
      List.append_assoc]

/-- The walk with enough steps meets the trees and nothing else. -/
theorem walkWithin_eq (h : links.Preorder names met) {steps : Nat} (hsteps : met.length ≤ steps) :
    walkWithin links.children steps names = met := by
  have hwalk := h.walkWithin_append (steps - met.length) []
  rwa [Nat.add_sub_cancel' hsteps, List.append_nil, walkWithin_nil, List.append_nil] at hwalk

end Preorder

/-- Objects so far from the top that no way can be much longer have trees below them. -/
theorem exists_preorder_of_depth (height : Nat) (names : List String)
    (hdepth : ∀ name ∈ names,
      ∃ above, links.Ascent name above ∧ links.size < above.length + height) :
    ∃ met, links.Preorder names met := by
  -- A child is one object further from the top than its parent, and no way to the top is longer
  -- than the links, so the children run out.
  induction height generalizing names with
  | zero =>
    cases names with
    | nil => exact ⟨[], .nil⟩
    | cons name others =>
      obtain ⟨above, habove, hlong⟩ := hdepth name (by simp)
      have hshort := habove.length_le
      omega
  | succ height ihheight =>
    induction names with
    | nil => exact ⟨[], .nil⟩
    | cons name others ihothers =>
      obtain ⟨above, habove, hlong⟩ := hdepth name (by simp)
      have hchildren : ∀ child ∈ links.children name,
          ∃ above, links.Ascent child above ∧ links.size < above.length + height := by
        intro child hchild
        refine ⟨name :: above, .up (mem_children_iff.mp hchild) habove, ?_⟩
        rw [List.length_cons]
        omega
      obtain ⟨below, hbelow⟩ := ihheight _ hchildren
      obtain ⟨behind, hbehind⟩ :=
        ihothers fun other hother => hdepth other (List.mem_cons_of_mem _ hother)
      exact ⟨_, .cons hbelow hbehind⟩

/-- Where no cycle is found, every list of objects has trees below it. -/
theorem exists_preorder (hclosed : links.Closed) (hacyclic : links.firstCycle? = none)
    (names : List String) : ∃ met, links.Preorder names met := by
  apply exists_preorder_of_depth (links.size + 1)
  intro name _
  obtain ⟨above, habove⟩ := exists_ascent hclosed hacyclic name
  exact ⟨above, habove, by omega⟩

end NifBindings.ParentLinks
