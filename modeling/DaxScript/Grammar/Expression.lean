import DaxScript.Grammar.Operand

/-!
# Expressions

An expression is made of operands, and operands contain expressions, each to a limited number of
levels.  The production of an operand is defined by recursion on the levels that may still be
opened, so nothing has to be said about termination: an operand opens one level, and where none
is left it is refused before it is looked at.
-/

set_option autoImplicit false

namespace DaxScript.Production

/-- How many levels deep expressions may be nested. -/
def maxNesting : Nat := 128

/-- Reads an operand that may open the given number of levels, its own included. -/
def operand : (levels : Nat) → Production Expr 1
  | 0 => fun tokens => .error (refuse tokens (.nestingTooDeep maxNesting))
  | levels + 1 => operandOf (climb (operand levels))

/-- Reads an expression with operators of at least a level. -/
def expressionOfLevel : ExprProduction :=
  climb (operand maxNesting)

/-- Reads an expression. -/
def expression : Production Expr 1 :=
  expressionOfLevel 0

end DaxScript.Production
