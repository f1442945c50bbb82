import Mathlib.Data.List.Lex
import Mathlib.Data.Nat.Basic
import NifBindings.Field.Guard
import NifBindings.Inclusion

/-!
# Order of versions

Versions are ordered like the lists of their components: the first component that differs decides.
Comparing two versions answers by this order, and so do the checks against a written version.
-/

namespace NifBindings

namespace Version

/-- A version lies below or at another one if its components do, in lexicographic order. -/
instance : LE Version where
  le a b := a.components ≤ b.components

instance : DecidableLE Version := fun a b =>
  inferInstanceAs (Decidable (a.components ≤ b.components))

/-- The comparison says lower exactly for the lexicographically smaller list. -/
theorem compareComponents_eq_lt_iff {a b : List Nat} :
    compareComponents a b = .lt ↔ a < b := by
  induction a generalizing b with
  | nil => cases b <;> simp [compareComponents]
  | cons x a ih =>
    cases b with
    | nil => simp [compareComponents]
    | cons y b =>
      rw [compareComponents, Ordering.then_eq_lt, Nat.compare_eq_lt, Nat.compare_eq_eq, ih,
        List.cons_lt_cons_iff]

/-- The comparison says higher exactly for the lexicographically larger list. -/
theorem compareComponents_eq_gt_iff {a b : List Nat} :
    compareComponents a b = .gt ↔ b < a := by
  induction a generalizing b with
  | nil => cases b <;> simp [compareComponents]
  | cons x a ih =>
    cases b with
    | nil => simp [compareComponents]
    | cons y b =>
      rw [compareComponents, Ordering.then_eq_gt, Nat.compare_eq_gt, Nat.compare_eq_eq, ih,
        List.cons_lt_cons_iff, eq_comm (a := x)]

/-- The comparison says neither lower nor higher exactly for the same list. -/
theorem compareComponents_eq_eq_iff {a b : List Nat} : compareComponents a b = .eq ↔ a = b := by
  induction a generalizing b with
  | nil => cases b <;> simp [compareComponents]
  | cons x a ih =>
    cases b with
    | nil => simp [compareComponents]
    | cons y b =>
      rw [compareComponents, Ordering.then_eq_eq, Nat.compare_eq_eq, ih, List.cons.injEq]

/-- A version that is not above another one lies below or at it. -/
theorem compare_bne_gt {a b : Version} : (compare a b != .gt) = decide (a ≤ b) := by
  rw [Bool.eq_iff_iff, bne_iff_ne, decide_eq_true_iff]
  exact (not_congr compareComponents_eq_gt_iff).trans not_lt

/-- A version that is not below another one lies above or at it. -/
theorem compare_bne_lt {a b : Version} : (compare a b != .lt) = decide (b ≤ a) := by
  rw [Bool.eq_iff_iff, bne_iff_ne, decide_eq_true_iff]
  exact (not_congr compareComponents_eq_lt_iff).trans not_lt

/-- The check against a lower bound compares with the version that is written. -/
theorem atLeast_of_parse {version bound : Version} {text : String} (h : parse text = .ok bound) :
    version.atLeast text = .ok (decide (bound ≤ version)) := by
  rw [atLeast, relationTo, h, ← compare_bne_lt]
  rfl

/-- The check against an upper bound compares with the version that is written. -/
theorem atMost_of_parse {version bound : Version} {text : String} (h : parse text = .ok bound) :
    version.atMost text = .ok (decide (version ≤ bound)) := by
  rw [atMost, relationTo, h, ← compare_bne_gt]
  rfl

end Version

/-- A range contains the versions between its bounds. -/
theorem VersionRange.contains_eq (range : VersionRange) (version : Version) :
    range.contains version =
      (range.first.all (fun first => decide (first ≤ version)) &&
        range.last.all fun last => decide (version ≤ last)) := by
  simp only [contains, Version.compare_bne_gt]

end NifBindings
