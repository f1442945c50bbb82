import NifBindings.InputError
import NifBindings.Text.Search
import NifBindings.Expr.Basic

/-!
# Reading expressions

A text with a parenthesis or an operator in it is compound and must have a shape; its operands are
read in the same way. Of a bitwise or only the left operand is kept, because the right one is always
a field of a vendor.
-/

namespace NifBindings

/-- Whether a text holds a parenthesis or the spelling of an operator. -/
def isCompound (text : List Char) : Bool :=
  text.contains '(' || text.contains ')' ||
    Spelling.all.any fun spelling => Text.occursIn spelling.text.toList text

namespace Expr

/-- Reads an expression. The first compound text without a shape is the error. -/
def parseChars (text : List Char) : Except InputError Expr :=
  if isCompound text then
    match _hfound : matchShape? text with
    | none => .error (.expression (String.ofList text))
    | some found => do
      let lhs ← parseChars found.lhs
      if found.op.operator = .bitOr then
        .ok lhs.asOperand
      else
        let rhs ← parseChars found.rhs
        .ok (withUnary found.unary
          (.binary lhs.asOperand found.op.operator rhs.asOperand))
  else .ok (leaf (String.ofList text))
termination_by text.length
decreasing_by
  · exact (length_of_matchShape? _hfound).1
  · exact (length_of_matchShape? _hfound).2

/-- Reads an expression from a string. -/
def parse (text : String) : Except InputError Expr :=
  parseChars text.toList

end Expr

end NifBindings
