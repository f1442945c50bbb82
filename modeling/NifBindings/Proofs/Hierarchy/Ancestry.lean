import Mathlib.Data.List.Perm.Subperm
import NifBindings.Proofs.Hierarchy.Links

/-!
# Ancestry

The way from an object up to one without a parent never meets itself, so it is no longer than the
links, and such a way exists only where no cycle is ahead. The loop that climbs it ends with the
ancestors of the object, nearest first.
-/

namespace NifBindings

/-- A loop that begins in one state ends in another, which no step leaves. -/
def EndsIn {σ : Type} (step : σ → Option σ) (first last : σ) : Prop :=
  Relation.ReflTransGen (fun before after => step before = some after) first last ∧
    step last = none

/-- A loop ends where it ends after one step. -/
theorem EndsIn.head {σ : Type} {step : σ → Option σ} {first next last : σ}
    (hstep : step first = some next) (h : EndsIn step next last) : EndsIn step first last :=
  ⟨h.1.head hstep, h.2⟩

namespace ParentLinks

/-- One step up: the next parent is noted, and its own parent is next. -/
def climbStep (links : ParentLinks) :
    List String × Option String → Option (List String × Option String)
  | (_, none) => none
  | (above, some name) => some (above ++ [name], links.parent? name)

/-- The objects on the way from an object to the top, nearest first. -/
inductive Ascent (links : ParentLinks) : String → List String → Prop
  /-- Nothing stands above an object without a parent. -/
  | top {name : String} (h : links.parent? name = none) : Ascent links name []
  /-- Above an object stand its parent and all that stands above that. -/
  | up {name parent : String} {above : List String} (h : links.IsParent name parent)
      (habove : Ascent links parent above) : Ascent links name (parent :: above)

variable {links : ParentLinks} {name other : String} {above : List String}

/-- Distinct objects are no more than there are in the links. -/
theorem length_le_size {names : List String} (hnodup : names.Nodup) (hkeys : names ⊆ links.keys) :
    names.length ≤ links.size := by
  have hlength := (hnodup.subperm hkeys).length_le
  simpa [OrderedMap.keys, OrderedMap.size] using hlength

/-- A chain of parents that ends at an object without one leads to the top. -/
theorem ascent_of_isChain (hchain : (name :: above).IsChain links.IsParent)
    (htop : (name :: above).getLast?.bind links.parent? = none) : links.Ascent name above := by
  induction above generalizing name with
  | nil => exact .top (by simpa using htop)
  | cons parent above ih =>
    obtain ⟨hparent, hchain⟩ := List.isChain_cons_cons.mp hchain
    exact .up hparent (ih hchain (by simpa using htop))

namespace Ascent

/-- What stands above an object are its ancestors. -/
theorem mem_iff (h : links.Ascent name above) :
    other ∈ above ↔ Relation.TransGen links.IsParent name other := by
  induction h with
  | top htop =>
    constructor
    · intro hmem
      cases hmem
    · intro hup
      obtain ⟨parent, hparent, _⟩ := Relation.TransGen.head'_iff.mp hup
      rw [hparent.1] at htop
      cases htop
  | up hparent _ ih =>
    rw [List.mem_cons, ih]
    constructor
    · rintro (rfl | hup)
      · exact .single hparent
      · exact .head hparent hup
    · intro hup
      obtain ⟨next, hnext, hrest⟩ := Relation.TransGen.head'_iff.mp hup
      rw [hnext.unique hparent] at hrest
      rcases Relation.reflTransGen_iff_eq_or_transGen.mp hrest with rfl | hup
      · exact .inl rfl
      · exact .inr hup

/-- No cycle is ahead of an object from which a way leads to the top. -/
theorem not_reachesCycle (h : links.Ascent name above) : ¬links.ReachesCycle name := by
  induction h with
  | top htop =>
    intro hcycle
    obtain ⟨parent, hparent⟩ := hcycle.exists_isParent
    rw [hparent.1] at htop
    cases htop
  | up hparent _ ih => exact fun hcycle => ih (hparent.reachesCycle_iff.mp hcycle)

/-- The way to the top meets no object twice. -/
theorem nodup (h : links.Ascent name above) : (name :: above).Nodup := by
  have hself {name : String} {above : List String} (h : links.Ascent name above) :
      name ∉ above := by
    intro hmem
    exact h.not_reachesCycle ⟨name, .refl, h.mem_iff.mp hmem⟩
  induction h with
  | top => simp
  | up hparent habove ih => exact List.nodup_cons.mpr ⟨hself (.up hparent habove), ih⟩

/-- The way to the top meets objects only. -/
theorem subset_keys (h : links.Ascent name above) : above ⊆ links.keys := by
  induction h with
  | top => exact List.nil_subset _
  | up hparent _ ih => exact List.cons_subset.mpr ⟨hparent.2, ih⟩

/-- The way to the top is no longer than the links. -/
theorem length_le (h : links.Ascent name above) : above.length ≤ links.size :=
  length_le_size (List.nodup_cons.mp h.nodup).2 h.subset_keys

/-- The loop that climbs to the top ends with what stands above. -/
theorem endsIn_climbStep (h : links.Ascent name above) (noted : List String) :
    EndsIn links.climbStep (noted, links.parent? name) (noted ++ above, none) := by
  induction h generalizing noted with
  | top htop =>
    rw [htop, List.append_nil]
    exact ⟨.refl, rfl⟩
  | @up name parent above hparent _ ih =>
    rw [hparent.1]
    have hrest := ih (noted ++ [parent])
    rw [List.append_assoc, List.singleton_append] at hrest
    exact .head rfl hrest

/-- The ancestors within enough steps are all that stands above. -/
theorem ancestorsWithin_eq (h : links.Ascent name above) {steps : Nat}
    (hsteps : above.length ≤ steps) : links.ancestorsWithin steps name = above := by
  induction h generalizing steps with
  | top htop => cases steps <;> simp [ancestorsWithin, htop]
  | up hparent _ ih =>
    cases steps with
    | zero => simp at hsteps
    | succ steps =>
      rw [ancestorsWithin, hparent.1]
      dsimp only
      rw [ih (by simpa using hsteps)]

end Ascent

end ParentLinks

end NifBindings
