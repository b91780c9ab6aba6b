import DaxScript.Measure

/-!
# Statements

A script defines measures and asks queries.  Definitions stand on their own or in a block in front
of a query.  Statements that do something else to the cube are recognised by their beginning and
passed over.
-/

set_option autoImplicit false

namespace DaxScript

/-- A definition of a block. -/
inductive Definition where
  | measure (clause : MeasureClause)
  | binding (name : String) (value : Expr)

/-- The direction in which rows are sorted. -/
inductive Direction where
  | ascending
  | descending
  deriving DecidableEq

/-- `EVALUATE table ORDER BY key ASC, ...` -/
structure Query where
  table : Expr
  ordering : List (Expr × Option Direction)

/-- A statement of a script. -/
inductive Statement where
  /-- `CREATE MEASURE ...` -/
  | createMeasure (clause : MeasureClause)
  /-- `DEFINE MEASURE ... VAR ... EVALUATE ...` -/
  | define (definitions : List Definition) (query : Query)
  | evaluate (query : Query)
  /-- `= expression` -/
  | expression (value : Expr)
  /-- `CREATE` something other than a measure, told by the token after it. -/
  | createOther (create : Token) (object : TokenKind)
  /-- Anything else, told by its first token. -/
  | unsupported (first : Token)

namespace Definition

/-- The measure that a definition defines, if it does. -/
def measure? : Definition → Option MeasureClause
  | measure clause => some clause
  | binding _ _ => none

end Definition

namespace Statement

/-- The measures that a statement defines, in order. -/
def measures : Statement → List MeasureClause
  | createMeasure clause => [clause]
  | define definitions _ => definitions.filterMap Definition.measure?
  | _ => []

end Statement

end DaxScript
