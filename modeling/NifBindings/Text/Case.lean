import NifBindings.Text.CaseTables

/-!
# Case mappings of texts

Lower case is taken of a whole text, because a capital sigma at the end of a word has a form of its
own. Upper case is taken of one character, which may give several.
-/

namespace NifBindings.Text

/-- A code point moved by the run that maps it, or left alone if none does. -/
def shiftedBy (runs : List CaseRun) (c : Char) : Char :=
  match runs.find? (CaseRun.covers · c.toNat) with
  | some run => Char.ofNat (c.toNat + run.shift).toNat
  | none => c

/-- The lower case of one character out of context. Only the capital I with a dot above has two
characters. -/
def lowerChar (c : Char) : List Char :=
  if c = '\u0130' then ['i', '\u0307'] else [shiftedBy lowerRuns c]

/-- The upper case of one character. -/
def upperChar (c : Char) : List Char :=
  match upperExpansions.find? (·.1 == c.toNat) with
  | some expansion => expansion.2.map Char.ofNat
  | none => [shiftedBy upperRuns c]

/-- Whether a character has the property Cased. -/
def isCased (c : Char) : Bool :=
  casedRanges.any fun range => range.1 ≤ c.toNat && c.toNat ≤ range.2

/-- Whether a character has the property Case_Ignorable. -/
def isCaseIgnorable (c : Char) : Bool :=
  ignorableRanges.any fun range => range.1 ≤ c.toNat && c.toNat ≤ range.2

/-- Whether the first character that is not ignorable is cased. -/
def meetsCased (text : List Char) : Bool :=
  match text.dropWhile isCaseIgnorable with
  | [] => false
  | c :: _ => isCased c

/-- The lower case of a text that stands after `before`, whose characters are listed last first. A
capital sigma that ends a word becomes a final sigma. -/
def lowerAfter (before : List Char) : List Char → List Char
  | [] => []
  | c :: rest =>
    if c = 'Σ' then
      (if meetsCased before && !meetsCased rest then 'ς' else 'σ') :: lowerAfter (c :: before) rest
    else
      lowerChar c ++ lowerAfter (c :: before) rest

/-- The lower case of a text. -/
def lowerChars (text : List Char) : List Char :=
  lowerAfter [] text

/-- The lower case of a string. -/
def lower (text : String) : String :=
  String.ofList (lowerChars text.toList)

/-- A string whose first character is in upper case. -/
def capitalize (text : String) : String :=
  match text.toList with
  | [] => ""
  | c :: rest => String.ofList (upperChar c ++ rest)

/-- A capital sigma that ends a word is a final sigma, and one that stands alone is not. -/
example : lowerChars ['Ο', 'Σ'] = ['ο', 'ς'] ∧ lowerChars ['Σ'] = ['σ'] := by
  decide +kernel

/-- The character of a number has that code point, unless no character has it. -/
theorem toNat_ofNat (code : Nat) :
    (Char.ofNat code).toNat = code ∨ (Char.ofNat code).toNat = 0 := by
  by_cases hvalid : code.isValidChar
  · rw [Char.ofNat, dif_pos hvalid]
    exact .inl rfl
  · rw [Char.ofNat, dif_neg hvalid]
    exact .inr rfl

/-- A capital letter of the basic alphabet is one of 26 code points. -/
theorem isUpper_iff (c : Char) : c.isUpper = true ↔ 0x41 ≤ c.toNat ∧ c.toNat ≤ 0x5A := by
  have hbounds : c.isUpper = decide (0x41 ≤ c.val ∧ c.val ≤ 0x5A) := rfl
  rw [hbounds, decide_eq_true_iff, UInt32.le_iff_toNat_le, UInt32.le_iff_toNat_le]
  rfl

/-- No mapping to lower case leads to a capital letter of the basic alphabet, and those letters are
mapped themselves. -/
theorem isUpper_shiftedBy_lowerRuns (c : Char) : (shiftedBy lowerRuns c).isUpper = false := by
  have himage : ∀ run ∈ lowerRuns, run.last + run.shift < 0x41 ∨ 0x5A < run.first + run.shift := by
    decide +kernel
  rw [← Bool.not_eq_true, isUpper_iff]
  unfold shiftedBy
  split
  next run hrun =>
    have hcovers := List.find?_some hrun
    have hrange := himage run (List.mem_of_find?_eq_some hrun)
    simp only [CaseRun.covers, Bool.and_eq_true, decide_eq_true_eq] at hcovers
    rcases toNat_ofNat (c.toNat + run.shift).toNat with hcode | hcode <;> omega
  next hnone =>
    have hbasic := List.find?_eq_none.mp hnone ⟨0x41, 0x5A, 1, 32⟩ List.mem_cons_self
    simp only [CaseRun.covers, Nat.mod_one, Bool.and_eq_true, decide_eq_true_eq] at hbasic
    simpa using hbasic

/-- Lower case leaves no capital letter of the basic alphabet, whatever stands before a text. -/
theorem isUpper_of_mem_lowerAfter {before text : List Char} {c : Char}
    (h : c ∈ lowerAfter before text) : c.isUpper = false := by
  induction text generalizing before with
  | nil => cases h
  | cons d rest ih =>
    rw [lowerAfter] at h
    split at h
    · rcases List.mem_cons.mp h with hsigma | hrest
      · rw [hsigma]
        split <;> decide
      · exact ih hrest
    · rcases List.mem_append.mp h with hhead | hrest
      · unfold lowerChar at hhead
        split at hhead
        · simp only [List.mem_cons, List.not_mem_nil, or_false] at hhead
          rcases hhead with rfl | rfl <;> decide
        · rw [List.mem_singleton.mp hhead]
          exact isUpper_shiftedBy_lowerRuns d
      · exact ih hrest

end NifBindings.Text
