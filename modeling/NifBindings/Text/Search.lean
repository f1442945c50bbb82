/-!
# Words inside texts

Whether a word stands at the start of a text or anywhere in it.
-/

namespace NifBindings.Text

/-- Whether a word occurs in a list of characters. -/
def occursIn (word : List Char) : List Char → Bool
  | [] => word.isEmpty
  | c :: rest => word.isPrefixOf (c :: rest) || occursIn word rest

/-- Whether a string holds a word. -/
def holds (text word : String) : Bool :=
  occursIn word.toList text.toList

/-- Whether a string begins with a word. -/
def beginsWith (text word : String) : Bool :=
  word.toList.isPrefixOf text.toList

/-- A word occurs in a text exactly if the text is something, the word, and something. -/
theorem occursIn_iff {word text : List Char} :
    occursIn word text = true ↔ ∃ before behind, text = before ++ word ++ behind := by
  induction text with
  | nil =>
    simp only [occursIn, List.isEmpty_iff, List.append_assoc, List.nil_eq, List.append_eq_nil_iff,
      exists_and_left, exists_eq_left]
    simp
  | cons c rest ih =>
    simp only [occursIn, Bool.or_eq_true, List.isPrefixOf_iff_prefix, ih]
    constructor
    · rintro (⟨behind, h⟩ | ⟨before, behind, h⟩)
      · exact ⟨[], behind, by simpa using h.symm⟩
      · exact ⟨c :: before, behind, by simp [h]⟩
    · rintro ⟨before, behind, h⟩
      cases before with
      | nil => exact .inl ⟨behind, by simpa using h.symm⟩
      | cons d before =>
        simp only [List.cons_append, List.cons.injEq] at h
        exact .inr ⟨before, behind, h.2⟩

end NifBindings.Text
