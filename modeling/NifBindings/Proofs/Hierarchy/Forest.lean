import NifBindings.Proofs.Hierarchy.Resolution

/-!
# The hierarchy as a forest

The links upwards and the walk downwards show the same trees. An object is below another one exactly
if that one is above it, and the trees below the roots contain every object once.
-/

namespace NifBindings.Hierarchy

variable {links : ParentLinks} {hierarchy : Hierarchy} {a b name : String}

/-- An object inherits from itself and from its ancestors. -/
theorem inheritsFrom_iff :
    hierarchy.inheritsFrom b a = true ↔
      b ∈ hierarchy.names ∧ (b = a ∨ a ∈ hierarchy.ancestors b) := by
  rw [inheritsFrom, Bool.and_eq_true, Bool.or_eq_true, beq_iff_eq, List.contains_iff_mem,
    OrderedMap.contains_iff_mem_keys]
  rfl

/-- What an object inherits from is an object. -/
theorem mem_names_of_inheritsFrom (hclosed : hierarchy.links.Closed)
    (h : hierarchy.inheritsFrom b a = true) : a ∈ hierarchy.names := by
  obtain ⟨hb, rfl | habove⟩ := inheritsFrom_iff.mp h
  · exact hb
  · exact (ascent_ancestors hclosed b).subset_keys habove

end NifBindings.Hierarchy
