import Mathlib.Data.List.Infix

/-!
# Splitting and joining lists

A list is split into the parts between its separators, and parts are joined with separators between
them. What stands in the joined list stands in one of the parts, as long as it has nothing to do
with the separators.
-/

namespace NifBindings

variable {α : Type}

/-- An element of joined lists is the separator or stands in one of them. -/
theorem mem_intercalate {separator a : α} {lists : List (List α)}
    (h : a ∈ [separator].intercalate lists) : a = separator ∨ ∃ list ∈ lists, a ∈ list := by
  induction lists with
  | nil => simp at h
  | cons first rest ih =>
    cases rest with
    | nil => exact .inr ⟨first, by simp, by simpa using h⟩
    | cons second rest =>
      rw [List.intercalate_cons_cons, List.append_assoc, List.mem_append] at h
      rcases h with h | h
      · exact .inr ⟨first, by simp, h⟩
      · rcases List.mem_cons.mp h with rfl | h
        · exact .inl rfl
        · rcases ih h with rfl | ⟨list, hlist, ha⟩
          · exact .inl rfl
          · exact .inr ⟨list, List.mem_cons_of_mem first hlist, ha⟩

/-- Each part stands in the joined list. -/
theorem isInfix_intercalate_of_mem {separator part : List α} {parts : List (List α)}
    (h : part ∈ parts) : part <:+: separator.intercalate parts := by
  induction parts with
  | nil => cases h
  | cons first rest ih =>
    cases rest with
    | nil =>
      rw [List.mem_singleton.mp h]
      simp
    | cons second rest =>
      rw [List.intercalate_cons_cons]
      rcases List.mem_cons.mp h with rfl | h
      · rw [List.append_assoc]
        exact (List.prefix_append part _).isInfix
      · exact (ih h).trans (List.suffix_append _ _).isInfix

/-- A word stands in a list beside an element that it lacks exactly if it stands in front of it or
behind it. -/
theorem infix_append_cons_iff {word a b : List α} {c : α} (hc : c ∉ word) :
    word <:+: a ++ c :: b ↔ word <:+: a ∨ word <:+: b := by
  constructor
  · intro hword
    rcases List.infix_append_iff.mp hword with ha | hb | ⟨front, back, rfl, hfront, hback⟩
    · exact .inl ha
    · rcases List.infix_cons_iff.mp hb with hb | hb
      · rcases List.prefix_cons_iff.mp hb with rfl | ⟨rest, rfl, -⟩
        · exact .inr (List.nil_infix)
        · exact absurd (by simp) hc
      · exact .inr hb
    · rcases List.prefix_cons_iff.mp hback with rfl | ⟨rest, rfl, -⟩
      · rw [List.append_nil]
        exact .inl hfront.isInfix
      · exact absurd (by simp) hc
  · rintro (ha | hb)
    · exact ha.trans (List.prefix_append a (c :: b)).isInfix
    · exact hb.trans ((List.suffix_cons c b).isInfix.trans (List.suffix_append a (c :: b)).isInfix)

/-- A word has no part in a list beside it whose elements it lacks. -/
theorem infix_append_iff_of_not_mem {word front back : List α} (hword : word ≠ [])
    (hfront : ∀ a ∈ front, a ∉ word) : word <:+: front ++ back ↔ word <:+: back := by
  induction front with
  | nil => rfl
  | cons a front ih =>
    obtain ⟨ha, hfront⟩ := List.forall_mem_cons.mp hfront
    rw [List.cons_append, List.infix_cons_iff, ih hfront, or_iff_right]
    intro hprefix
    rcases List.prefix_cons_iff.mp hprefix with rfl | ⟨rest, rfl, -⟩
    · exact hword rfl
    · exact ha List.mem_cons_self

/-- A word stands in joined parts exactly if it stands in one of them, as long as it has no element
of the separator. -/
theorem infix_intercalate_iff {word separator : List α} {parts : List (List α)} (hword : word ≠ [])
    (hseparator : separator ≠ []) (hnot : ∀ a ∈ separator, a ∉ word) :
    word <:+: separator.intercalate parts ↔ ∃ part ∈ parts, word <:+: part := by
  obtain ⟨a, more, rfl⟩ := List.exists_cons_of_ne_nil hseparator
  obtain ⟨ha, hmore⟩ := List.forall_mem_cons.mp hnot
  induction parts with
  | nil => simp [hword]
  | cons first rest ih =>
    cases rest with
    | nil => simp
    | cons second rest =>
      rw [List.intercalate_cons_cons, List.append_assoc, List.cons_append, infix_append_cons_iff ha,
        infix_append_iff_of_not_mem hword hmore, ih]
      simp only [List.exists_mem_cons_iff]

section Split

variable [BEq α]

/-- A list is cut into one part more than it has separators. -/
theorem length_splitOn (separator : α) (list : List α) :
    (list.splitOn separator).length = list.count separator + 1 := by
  induction list with
  | nil => simp
  | cons a list ih =>
    rw [List.splitOn_cons_eq_if_modifyHead, List.count_cons]
    split <;> simp [ih]

/-- An element of a list is a separator or stands in one of the parts between separators. -/
theorem eq_or_exists_mem_splitOn [LawfulBEq α] (separator : α) {list : List α} {a : α}
    (h : a ∈ list) : a = separator ∨ ∃ part ∈ list.splitOn separator, a ∈ part := by
  have hlist : [separator].intercalate (list.splitOn separator) = list :=
    List.intercalate_splitOn separator
  rw [← hlist] at h
  exact mem_intercalate h

/-- Each part of a list that is split stands in it. -/
theorem isInfix_of_mem_splitOn [LawfulBEq α] {separator : α} {list part : List α}
    (h : part ∈ list.splitOn separator) : part <:+: list := by
  have hlist : [separator].intercalate (list.splitOn separator) = list :=
    List.intercalate_splitOn separator
  exact hlist ▸ isInfix_intercalate_of_mem h

/-- No part of a list that is split holds the separator. -/
theorem not_mem_of_mem_splitOn [LawfulBEq α] {separator : α} {list part : List α}
    (h : part ∈ list.splitOn separator) : separator ∉ part := by
  induction list generalizing part with
  | nil =>
    rw [List.splitOn_nil, List.mem_singleton] at h
    subst h
    exact List.not_mem_nil
  | cons a list ih =>
    obtain ⟨first, rest, hsplit⟩ := List.exists_cons_of_ne_nil (List.splitOn_ne_nil separator list)
    rw [List.splitOn_cons_eq_if_modifyHead, hsplit] at h
    rw [hsplit] at ih
    by_cases ha : (a == separator) = true
    · rw [if_pos ha] at h
      rcases List.mem_cons.mp h with rfl | h
      · exact List.not_mem_nil
      · exact ih h
    · rw [if_neg ha, List.modifyHead_cons] at h
      rcases List.mem_cons.mp h with rfl | h
      · have hne : separator ≠ a := fun hsame => ha (beq_iff_eq.mpr hsame.symm)
        exact List.not_mem_cons_of_ne_of_not_mem hne (ih List.mem_cons_self)
      · exact ih (List.mem_cons_of_mem _ h)

/-- Splitting a list and joining the parts again puts a new separator in the place of the old. -/
theorem intercalate_splitOn_cons (between : List α) (separator a : α) (list : List α) :
    between.intercalate ((a :: list).splitOn separator) =
      (if a == separator then between else [a]) ++
        between.intercalate (list.splitOn separator) := by
  obtain ⟨first, rest, hsplit⟩ := List.exists_cons_of_ne_nil (List.splitOn_ne_nil separator list)
  rw [List.splitOn_cons_eq_if_modifyHead, hsplit]
  by_cases h : (a == separator) = true
  · simp [h, List.intercalate_cons_cons]
  · cases rest with
    | nil => simp [h]
    | cons second rest => simp [h, List.intercalate_cons_cons]

end Split

end NifBindings
