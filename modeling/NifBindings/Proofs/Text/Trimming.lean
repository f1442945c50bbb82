import Mathlib.Data.List.TakeWhile
import NifBindings.Text.Blank
import NifBindings.Proofs.Basic

/-!
# Trimmed texts

Trimming takes white space away at both ends of a text and nothing else. What is left begins and
ends with no white space, so that a text is trimmed in one way only.
-/

namespace NifBindings.Text

/-- The code points of the characters with the property White_Space. -/
def whiteSpaceRanges : List (Nat × Nat) :=
  [(0x9, 0xD), (0x20, 0x20), (0x85, 0x85), (0xA0, 0xA0), (0x1680, 0x1680), (0x2000, 0x200A),
    (0x2028, 0x2029), (0x202F, 0x202F), (0x205F, 0x205F), (0x3000, 0x3000)]

/-- Whether a character is white space. -/
def IsWhiteSpace (c : Char) : Prop :=
  ∃ range ∈ whiteSpaceRanges, range.1 ≤ c.toNat ∧ c.toNat ≤ range.2

/-- Whether a text is another one without the white space at both of its ends. -/
structure IsTrimmed (trimmed text : List Char) : Prop where
  exists_eq_append : ∃ front back, text = front ++ trimmed ++ back ∧
    (∀ c ∈ front, IsWhiteSpace c) ∧ ∀ c ∈ back, IsWhiteSpace c
  head : ∀ c ∈ trimmed.head?, ¬IsWhiteSpace c
  last : ∀ c ∈ trimmed.getLast?, ¬IsWhiteSpace c

variable {text trimmed front back : List Char} {c : Char}

/-- The blank characters are white space. -/
theorem isBlank_iff : isBlank c = true ↔ IsWhiteSpace c := by
  simp only [isBlank, IsWhiteSpace, whiteSpaceRanges, Bool.or_eq_true, Bool.and_eq_true,
    decide_eq_true_eq, beq_iff_eq, List.mem_cons, List.not_mem_nil, or_false, exists_eq_or_imp,
    exists_eq_left]
  omega

/-- What is not white space is not blank. -/
theorem isBlank_eq_false_iff : isBlank c = false ↔ ¬IsWhiteSpace c := by
  rw [← isBlank_iff, Bool.not_eq_true]

/-- A text is some white space in front of what is left when blanks are dropped. -/
theorem exists_eq_append_dropWhile (text : List Char) :
    ∃ front, text = front ++ text.dropWhile isBlank ∧ (∀ c ∈ front, IsWhiteSpace c) ∧
      ∀ c ∈ (text.dropWhile isBlank).head?, ¬IsWhiteSpace c := by
  refine ⟨text.takeWhile isBlank, (List.takeWhile_append_dropWhile).symm,
    fun c hc => isBlank_iff.mp (List.mem_takeWhile_imp hc), fun c hc => ?_⟩
  have hnot := List.head?_dropWhile_not isBlank text
  rw [Option.mem_def.mp hc] at hnot
  exact isBlank_eq_false_iff.mp hnot

/-- Trimming gives a trimmed text. -/
theorem isTrimmed_trimBoth (text : List Char) : IsTrimmed (trimBoth text) text := by
  obtain ⟨front, htext, hfront, hhead⟩ := exists_eq_append_dropWhile text
  obtain ⟨back, hreverse, hback, hlast⟩ :=
    exists_eq_append_dropWhile (text.dropWhile isBlank).reverse
  have hmiddle : text.dropWhile isBlank = trimBoth text ++ back.reverse := by
    rw [trimBoth, trimRight, ← List.reverse_append, ← hreverse, List.reverse_reverse]
  refine ⟨⟨front, back.reverse, ?_, hfront, fun c hc => hback c (List.mem_reverse.mp hc)⟩,
    fun c hc => hhead c ?_, fun c hc => hlast c ?_⟩
  · rw [List.append_assoc, ← hmiddle, ← htext]
  · rw [hmiddle, Option.mem_def, List.head?_append, Option.mem_def.mp hc, Option.some_or]
  · rwa [trimBoth, trimRight, List.getLast?_reverse] at hc

/-- A text is trimmed in one way only, which is how trimming does it. -/
theorem isTrimmed_iff : IsTrimmed trimmed text ↔ trimmed = trimBoth text := by
  refine ⟨?_, by rintro rfl; exact isTrimmed_trimBoth text⟩
  rintro ⟨⟨front, back, rfl, hfront, hback⟩, hhead, hlast⟩
  cases trimmed with
  | nil =>
    have hall : ∀ c ∈ front ++ [] ++ back, isBlank c = true := by
      simp only [List.append_nil, List.mem_append, isBlank_iff]
      exact fun c hc => hc.elim (hfront c) (hback c)
    rw [trimBoth, List.dropWhile_eq_nil_iff.mpr hall, trimRight]
    rfl
  | cons first rest =>
    have hfirst : (front ++ first :: rest ++ back).dropWhile isBlank = first :: rest ++ back := by
      rw [List.append_assoc]
      refine dropWhile_append_of_head (fun c hc => isBlank_iff.mpr (hfront c hc)) fun c hc => ?_
      exact isBlank_eq_false_iff.mpr (hhead c hc)
    rw [trimBoth, hfirst, trimRight, List.reverse_append, dropWhile_append_of_head,
      List.reverse_reverse]
    · exact fun c hc => isBlank_iff.mpr (hback c (List.mem_reverse.mp hc))
    · intro c hc
      rw [List.head?_reverse] at hc
      exact isBlank_eq_false_iff.mpr (hlast c hc)

end NifBindings.Text
