import Mathlib.Data.List.Basic
import NifBindings.Inclusion
import NifBindings.Proofs.Basic

/-!
# Chosen elements

Elements are chosen if the check decides about every one of them, and those that pass are chosen in
their order.
-/

namespace NifBindings

variable {emits : Attributes → Except InputError Bool} {elements kept : List Element}
  {element : Element}

/-- Whether a check decides about every element, without an error. -/
def Decides (emits : Attributes → Except InputError Bool) (elements : List Element) : Prop :=
  ∀ element ∈ elements, ∃ answer, emits element.attributes = .ok answer

/-- The elements that pass a check. -/
def passing (emits : Attributes → Except InputError Bool) (elements : List Element) :
    List Element :=
  elements.filter fun element => emits element.attributes = .ok true

/-- Elements can be chosen if the check decides about every one, and those that pass are chosen. -/
theorem filterEmitted_eq_ok_iff :
    filterEmitted emits elements = .ok kept ↔
      Decides emits elements ∧ kept = passing emits elements := by
  induction elements generalizing kept with
  | nil => simp [filterEmitted, Decides, passing, eq_comm]
  | cons element rest ih =>
    simp only [filterEmitted, bind_eq_ok_iff, ih, Except.ok.injEq, Decides, passing,
      List.forall_mem_cons]
    constructor
    · rintro ⟨answer, hanswer, others, ⟨hrest, rfl⟩, rfl⟩
      refine ⟨⟨⟨answer, hanswer⟩, hrest⟩, ?_⟩
      cases answer <;> simp [hanswer]
    · rintro ⟨⟨⟨answer, hanswer⟩, hrest⟩, rfl⟩
      refine ⟨answer, hanswer, _, ⟨hrest, rfl⟩, ?_⟩
      cases answer <;> simp [hanswer]

/-- If a check decides about every element, those that pass it are chosen. -/
theorem filterEmitted_of_decides (h : Decides emits elements) :
    filterEmitted emits elements = .ok (passing emits elements) :=
  filterEmitted_eq_ok_iff.mpr ⟨h, rfl⟩

/-- Elements that all pass the check are kept. -/
theorem filterEmitted_eq_self (h : ∀ element ∈ elements, emits element.attributes = .ok true) :
    filterEmitted emits elements = .ok elements := by
  refine filterEmitted_eq_ok_iff.mpr ⟨fun element hmem => ⟨true, h element hmem⟩, ?_⟩
  exact (List.filter_eq_self.mpr fun element hmem => decide_eq_true (h element hmem)).symm

/-- An element that passes the check is kept. -/
theorem filterEmitted_singleton (h : emits element.attributes = .ok true) :
    filterEmitted emits [element] = .ok [element] :=
  filterEmitted_eq_self (List.forall_mem_singleton.mpr h)

/-- Elements are chosen by their attributes alone. -/
theorem filterEmitted_map {emits : Attributes → Except InputError Bool} {f : Element → Element}
    (hsame : ∀ element, emits (f element).attributes = emits element.attributes)
    (elements : List Element) :
    filterEmitted emits (elements.map f) = (filterEmitted emits elements).map (List.map f) := by
  induction elements with
  | nil => rfl
  | cons element elements ih =>
    rw [List.map_cons, filterEmitted, filterEmitted, hsame, ih]
    cases emits element.attributes with
    | error error => rfl
    | ok answer =>
      cases filterEmitted emits elements with
      | error error => rfl
      | ok kept => cases answer <;> rfl

/-- Every element that is kept passes the check. -/
theorem emits_of_mem_filterEmitted (h : filterEmitted emits elements = .ok kept)
    (hmem : element ∈ kept) : emits element.attributes = .ok true := by
  obtain ⟨-, rfl⟩ := filterEmitted_eq_ok_iff.mp h
  exact of_decide_eq_true (List.mem_filter.mp hmem).2

end NifBindings
