import NifBindings.Text.Number

/-!
# Decimal numbers

The decimal digits of a number are read as that number, as long as it lies within the bound of the
reader. The values that are met on the way only grow, so that none of them is beyond the bound.
-/

namespace NifBindings.Text

/-- The value of a decimal digit is its distance from zero. -/
theorem digitValue?_of_isDigit {c : Char} (hc : c.isDigit = true) :
    digitValue? 10 c = some (c.toNat - '0'.toNat) := by
  simp only [Char.isDigit, Bool.and_eq_true, decide_eq_true_eq] at hc
  have hrange : '0' ≤ c ∧ c ≤ '9' := hc
  have hle : c.toNat ≤ '9'.toNat := hrange.2
  have hlt : c.toNat - '0'.toNat < 10 := by
    have hnine : '9'.toNat = 57 := rfl
    have hzero : '0'.toNat = 48 := rfl
    omega
  rw [digitValue?, if_pos hrange]
  exact Option.filter_some_pos (by simpa using hlt)

/-- Further digits never make a value smaller. -/
theorem le_ofDigitChars (digits : List Char) (value : Nat) :
    value ≤ Nat.ofDigitChars 10 digits value := by
  induction digits generalizing value with
  | nil => simp
  | cons c digits ih =>
    rw [Nat.ofDigitChars_cons]
    have hrest := ih (10 * value + (c.toNat - '0'.toNat))
    omega

/-- Digits are read from the left, each behind ten times the value of those before it. -/
theorem readDigitsFrom_ofDigitChars {digits : List Char} {bound value : Nat}
    (hdigits : ∀ c ∈ digits, c.isDigit = true)
    (hbound : Nat.ofDigitChars 10 digits value ≤ bound) :
    readDigitsFrom 10 bound value digits = .ok (Nat.ofDigitChars 10 digits value) := by
  induction digits generalizing value with
  | nil => simp [readDigitsFrom]
  | cons c digits ih =>
    rw [Nat.ofDigitChars_cons] at hbound ⊢
    have hnext : value * 10 + (c.toNat - '0'.toNat) = 10 * value + (c.toNat - '0'.toNat) := by
      omega
    have hle := le_ofDigitChars digits (10 * value + (c.toNat - '0'.toNat))
    rw [readDigitsFrom, digitValue?_of_isDigit (hdigits c (by simp))]
    dsimp only
    rw [hnext, if_pos (by omega)]
    exact ih (fun d hd => hdigits d (by simp [hd])) hbound

/-- The decimal text of a number within the bound is read as that number. -/
theorem readDigits_toDigits {n bound : Nat} (hn : n ≤ bound) :
    readDigits 10 bound (Nat.toDigits 10 n) = .ok n := by
  have hdigits : ∀ c ∈ Nat.toDigits 10 n, c.isDigit = true := fun c hc =>
    Nat.isDigit_of_mem_toDigits (by decide) (by decide) hc
  rw [readDigits, if_neg (by simp), readDigitsFrom_ofDigitChars hdigits (by simpa using hn),
    Nat.ofDigitChars_ten_toDigits]

end NifBindings.Text
