/-!
# Binary operators

An operator of a schema expression is written as a symbolic token or in its native spelling. Both
spellings of all sixteen operators are different texts.
-/

namespace NifBindings

/-- A binary operator. -/
inductive Operator where
  | add
  | sub
  | mul
  | div
  | and
  | or
  | lt
  | gt
  | le
  | ge
  | eq
  | ne
  | shiftRight
  | shiftLeft
  | bitAnd
  | bitOr
deriving DecidableEq, Repr

namespace Operator

/-- All operators. -/
def all : List Operator :=
  [.add, .sub, .mul, .div, .and, .or, .lt, .gt, .le, .ge, .eq, .ne, .shiftRight, .shiftLeft,
    .bitAnd, .bitOr]

/-- The symbolic token of an operator. -/
def token : Operator → String
  | .add => "#ADD#"
  | .sub => "#SUB#"
  | .mul => "#MUL#"
  | .div => "#DIV#"
  | .and => "#AND#"
  | .or => "#OR#"
  | .lt => "#LT#"
  | .gt => "#GT#"
  | .le => "#LTE#"
  | .ge => "#GTE#"
  | .eq => "#EQ#"
  | .ne => "#NEQ#"
  | .shiftRight => "#RSH#"
  | .shiftLeft => "#LSH#"
  | .bitAnd => "#BITAND#"
  | .bitOr => "#BITOR#"

/-- The native spelling of an operator. -/
def native : Operator → String
  | .add => "+"
  | .sub => "-"
  | .mul => "*"
  | .div => "/"
  | .and => "&&"
  | .or => "||"
  | .lt => "<"
  | .gt => ">"
  | .le => "<="
  | .ge => ">="
  | .eq => "=="
  | .ne => "!="
  | .shiftRight => ">>"
  | .shiftLeft => "<<"
  | .bitAnd => "&"
  | .bitOr => "|"

end Operator

/-- An operator as it is written. -/
inductive Spelling where
  /-- By its symbolic token. -/
  | symbolic (operator : Operator)
  /-- By its native spelling. -/
  | native (operator : Operator)
deriving DecidableEq, Repr

namespace Spelling

/-- The operator that is written. -/
def operator : Spelling → Operator
  | .symbolic operator => operator
  | .native operator => operator

/-- The text of a spelling. -/
def text : Spelling → String
  | .symbolic operator => operator.token
  | .native operator => operator.native

/-- All spellings. -/
def all : List Spelling :=
  Operator.all.map symbolic ++ Operator.all.map native

/-- The spelling with this text. -/
def ofText? (text : List Char) : Option Spelling :=
  all.find? fun spelling => spelling.text.toList = text

end Spelling

/-- The native spelling for a symbolic token; any other text stays as it is. -/
def nativeText (text : String) : String :=
  match Operator.all.find? (·.token == text) with
  | some operator => operator.native
  | none => text

/-- Every operator is listed. -/
theorem Operator.mem_all (operator : Operator) : operator ∈ Operator.all := by
  cases operator <;> decide

/-- Every spelling is listed. -/
theorem Spelling.mem_all (spelling : Spelling) : spelling ∈ Spelling.all := by
  cases spelling <;> simp [Spelling.all, Operator.mem_all]

end NifBindings
