import DaxScript.Expr
import DaxScript.Grammar.Production

/-!
# Operators between operands

Binary operators have levels, and an operator of a higher level binds its operands tighter.  From
loose to tight: `OR`, `AND`, the comparisons together with `IN`, joining of texts, addition,
multiplication.  All of them associate to the left.

How an operand is read is a parameter here.  Given that, an expression of a least level is an
operand followed by operators of at least that level, each with a right operand of a higher level
(`Production.climb`).
-/

set_option autoImplicit false

namespace DaxScript

namespace BinaryOperator

/-- The operator that a token stands for. -/
def ofKind? : TokenKind → Option BinaryOperator
  | .symbol .doubleBar | .keyword .logicalOr => some logicalOr
  | .symbol .doubleAmpersand | .keyword .logicalAnd => some logicalAnd
  | .symbol .equal => some equal
  | .symbol .notEqual => some notEqual
  | .symbol .less => some less
  | .symbol .lessEqual => some lessEqual
  | .symbol .greater => some greater
  | .symbol .greaterEqual => some greaterEqual
  | .keyword .within => some within
  | .symbol .ampersand => some concat
  | .symbol .plus => some add
  | .symbol .minus => some subtract
  | .symbol .star => some multiply
  | .symbol .slash => some divide
  | _ => none

/-- How tightly an operator binds.  Between `AND` and the comparisons there is room for `NOT`. -/
def level : BinaryOperator → Nat
  | logicalOr => 1
  | logicalAnd => 2
  | equal | notEqual | less | lessEqual | greater | greaterEqual | within => 4
  | concat => 5
  | add | subtract => 6
  | multiply | divide => 7

end BinaryOperator

namespace UnaryOperator

/-- The operator that a token in front of an operand stands for. -/
def ofKind? : TokenKind → Option UnaryOperator
  | .symbol .minus => some negate
  | .symbol .plus => some plus
  | .keyword .logicalNot => some logicalNot
  | _ => none

/-- The least level that the operand of an operator may have: `NOT` takes in comparisons, and a
sign takes no binary operator at all. -/
def operandLevel : UnaryOperator → Nat
  | logicalNot => 3
  | negate | plus => 8

end UnaryOperator

/-- Two expressions joined by an operator. -/
def Expr.join (left : Expr) (operator : BinaryOperator) (right : Expr) : Expr :=
  .node (.binary operator left right) (left.span.cover right.span)

namespace Production

/-- Reads operators of at least a level and their right operands, joining all to the expression
read so far. -/
def climbFrom (operand : Production Expr 1) (level : Nat) (left : Expr) (tokens : List Token) :
    Reading Expr 0 tokens :=
  match tokens with
  | [] => .ok (.nothing left [])
  | token :: rest =>
    match BinaryOperator.ofKind? token.kind with
    | none => .ok (.nothing left (token :: rest))
    | some operator =>
      if operator.level < level then .ok (.nothing left (token :: rest))
      else do
        let first ← operand rest
        let right ← climbFrom operand (operator.level + 1) first.value first.rest
        let whole ← climbFrom operand level (left.join operator right.value) right.rest
        .ok ⟨whole.value, whole.rest, by
          have := first.fits
          have := right.fits
          have := whole.fits
          simp only [List.length_cons]
          omega⟩
termination_by tokens.length
decreasing_by
  · have := first.fits
    simp only [List.length_cons]
    omega
  · have := first.fits
    have := right.fits
    simp only [List.length_cons]
    omega

/-- Reads an expression whose operators outside of its operands have at least a level. -/
def climb (operand : Production Expr 1) (level : Nat) (tokens : List Token) :
    Reading Expr 1 tokens := do
  let first ← operand tokens
  let whole ← climbFrom operand level first.value first.rest
  .ok ⟨whole.value, whole.rest, by
    have := first.fits
    have := whole.fits
    omega⟩

end Production

end DaxScript
