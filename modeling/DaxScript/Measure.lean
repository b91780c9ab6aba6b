import DaxScript.Expr
import DaxScript.Measure.Format
import DaxScript.Text.Quoted
import DaxScript.Text.Trim
import DaxScript.Token

/-!
# Measures

A measure is a named expression that belongs to a table.  It is recorded as text: the names
without their quotes and brackets, the expression, and the whole definition.
-/

set_option autoImplicit false

namespace DaxScript

/-- A measure as it is recorded. -/
structure Measure where
  /-- The table, without quotes. -/
  tableName : String
  /-- The measure, without brackets. -/
  name : String
  /-- The expression as written, trimmed. -/
  expression : String
  /-- The definition from its first keyword to the end of the expression, trimmed.  What follows
  the expression is not part of it. -/
  fullText : String
  property : Option CalculationProperty
  /-- The bytes of the full text. -/
  span : Span
  deriving DecidableEq

/-- A measure definition as the grammar reads it. -/
structure MeasureClause where
  /-- The offset of the first keyword. -/
  start : Nat
  table : Token
  name : Token
  body : Expr
  property : Option CalculationProperty

/-- The bytes from the first keyword of a definition to the end of its expression. -/
def MeasureClause.span (clause : MeasureClause) : Span :=
  ⟨clause.start, clause.body.span.stop⟩

namespace Measure

/-- A table name without its quotes, the doubled quotes inside read as single ones.  A name that
is not quoted at both ends is kept. -/
def unquoteTableName (spelling : List Char) : List Char :=
  match spelling with
  | '\'' :: rest =>
    if rest.getLast? = some '\'' then Quoted.undouble '\'' rest.dropLast else spelling
  | _ => spelling

/-- A measure name without its brackets.  A name that is not in brackets at both ends is kept. -/
def stripBrackets (spelling : List Char) : List Char :=
  match spelling with
  | '[' :: rest => if rest.getLast? = some ']' then rest.dropLast else spelling
  | _ => spelling

/-- The measure that a clause of a source defines. -/
def ofClause (source : List Char) (clause : MeasureClause) : Measure where
  tableName := String.ofList (unquoteTableName clause.table.spelling.toList)
  name := String.ofList (stripBrackets clause.name.spelling.toList)
  expression := String.ofList (trim (clause.body.span.slice source))
  fullText := String.ofList (trim (clause.span.slice source))
  property := clause.property
  span := clause.span

end Measure

end DaxScript
