import NifBindings.Text.Numeric
import NifBindings.Identifier
import NifBindings.Expr.Shape

/-!
# Expressions

An expression is a numeral, a reference, or a binary expression of operands that stand in
parentheses wherever the text would read differently without them. Its text is that of the generated
sources.
-/

namespace NifBindings

/-- An expression of the generated sources. -/
inductive Expr where
  /-- A numeral as written. -/
  | numeral (digits : String)
  /-- A name. -/
  | reference (target : Reference)
  /-- An expression in parentheses. -/
  | group (inner : Expr)
  /-- Two operands with an operator between them. -/
  | binary (lhs : Expr) (op : Operator) (rhs : Expr)
  /-- Unary operators in front of an expression in parentheses. -/
  | unary (ops : List UnaryOperator) (inner : Expr)
deriving DecidableEq, Repr

namespace Expr

/-- The text of an expression. -/
def render : Expr → String
  | .numeral digits => digits
  | .reference target => target.render
  | .group inner => "(" ++ inner.render ++ ")"
  | .binary lhs op rhs => lhs.render ++ " " ++ op.native ++ " " ++ rhs.render
  | .unary ops inner => String.ofList (ops.map UnaryOperator.char) ++ "(" ++ inner.render ++ ")"

/-- Whether the text of an expression begins with a version value. -/
def startsWithVersion : Expr → Bool
  | .reference (.version _) => true
  | .binary lhs _ _ => lhs.startsWithVersion
  | _ => false

/-- Whether an operand needs parentheses: compound ones do unless they begin with a version
value. -/
def needsGroup : Expr → Bool
  | .numeral _ => false
  | .reference _ => false
  | .group _ => true
  | .binary lhs _ _ => !lhs.startsWithVersion
  | .unary _ _ => true

/-- An expression as an operand. -/
def asOperand (expr : Expr) : Expr :=
  if expr.needsGroup then .group expr else expr

/-- Unary operators in front of an expression, if there are any. -/
def withUnary (ops : List UnaryOperator) (expr : Expr) : Expr :=
  match ops with
  | [] => expr
  | _ => .unary ops expr

/-- The expression of a text without operators and parentheses. -/
def leaf (text : String) : Expr :=
  if Text.isNumeric text then .numeral text else .reference (.ofName text)

end Expr

end NifBindings
