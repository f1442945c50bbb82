/-!
# Reading whole numbers

Digits are read from the left, and the first fault decides: a character that is no digit, or a value
beyond the bound. One sign may stand in front where the number allows it.
-/

namespace NifBindings.Text

/-- Why a text is no number. -/
inductive NumberFault where
  /-- There are no digits at all. -/
  | empty
  /-- Some character is not a digit. -/
  | digit
  /-- The value lies beyond the bound. -/
  | tooLarge
deriving DecidableEq, Repr

/-- The wording of a fault. -/
def NumberFault.message : NumberFault → String
  | .empty => "cannot parse integer from empty string"
  | .digit => "invalid digit found in string"
  | .tooLarge => "number too large to fit in target type"

/-- The value of a digit in a base of at most sixteen; letters count in either case. -/
def digitValue? (base : Nat) (c : Char) : Option Nat :=
  let value? :=
    if '0' ≤ c ∧ c ≤ '9' then some (c.toNat - '0'.toNat)
    else if 'a' ≤ c ∧ c ≤ 'f' then some (c.toNat - 'a'.toNat + 10)
    else if 'A' ≤ c ∧ c ≤ 'F' then some (c.toNat - 'A'.toNat + 10)
    else none
  value?.filter (· < base)

/-- Reads the digits of `text` after those worth `value`, staying at or below `bound`. -/
def readDigitsFrom (base bound value : Nat) : List Char → Except NumberFault Nat
  | [] => .ok value
  | c :: rest =>
    match digitValue? base c with
    | none => .error .digit
    | some d =>
      if value * base + d ≤ bound then readDigitsFrom base bound (value * base + d) rest
      else .error .tooLarge

/-- Reads a number without a sign, which needs at least one digit. -/
def readDigits (base bound : Nat) (text : List Char) : Except NumberFault Nat :=
  if text.isEmpty then .error .empty else readDigitsFrom base bound 0 text

/-- Reads a number that may have a plus sign. -/
def readNat (base bound : Nat) : List Char → Except NumberFault Nat
  | '+' :: digits => if digits.isEmpty then .error .digit else readDigits base bound digits
  | text => readDigits base bound text

/-- The largest value of 32 bits. -/
def maxNat32 : Nat :=
  4294967295

/-- The largest value of 63 bits. -/
def maxNat63 : Nat :=
  9223372036854775807

/-- Reads a number of 63 bits and a sign. The lowest value has no positive counterpart. -/
def readInt64 (base : Nat) : List Char → Except NumberFault Int
  | '-' :: digits =>
    if digits.isEmpty then .error .digit
    else (readDigits base (maxNat63 + 1) digits).map fun n => -(n : Int)
  | text => (readNat base maxNat63 text).map fun n => (n : Int)

/-- A number that is read lies within the bound. -/
theorem readDigitsFrom_le {base bound value n : Nat} {text : List Char} (hvalue : value ≤ bound)
    (hread : readDigitsFrom base bound value text = .ok n) : n ≤ bound := by
  induction text generalizing value with
  | nil => simp only [readDigitsFrom, Except.ok.injEq] at hread; omega
  | cons c rest ih =>
    rw [readDigitsFrom] at hread
    split at hread
    · cases hread
    · split at hread
      next hle => exact ih hle hread
      next => cases hread

end NifBindings.Text
