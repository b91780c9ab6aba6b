import DaxScript.Diagnostic
import DaxScript.Token

/-!
# Why a statement is refused

A statement is refused for one reason, found at one place.  The reasons are listed here as causes
and given their wording in one function, `Issue.message`.
-/

set_option autoImplicit false

namespace DaxScript

/-- What the grammar would have read where something else stands. -/
inductive Expectation where
  | symbol (sign : Symbol)
  | keyword (word : Keyword)
  | endOfInput
  | expression
  | tableName
  | measureName
  | variableName
  /-- The name of a first column. -/
  | columnName
  /-- The name of a further column, or the rows. -/
  | columnNameOrRows
  /-- The first definition of a block. -/
  | definition
  /-- A further definition of a block, or its query. -/
  | definitionOrQuery
  | statementEnd
  deriving DecidableEq

/-- How an expectation is worded. -/
def Expectation.describe : Expectation → String
  | symbol sign => (TokenKind.symbol sign).describe
  | keyword word => word.name
  | endOfInput => TokenKind.endOfInput.describe
  | expression => "expression"
  | tableName => "table name"
  | measureName => "[measure name]"
  | variableName => "variable name"
  | columnName => "column name string"
  | columnNameOrRows => "column name string or '\x7b'" -- or `'{'`
  | definition => "MEASURE or VAR"
  | definitionOrQuery => "MEASURE, VAR or EVALUATE"
  | statementEnd => "';' or end of statement"

/-- Why a statement is refused. -/
inductive Issue where
  | unexpected (found : TokenKind) (expected : Expectation)
  | emptyTableName
  | emptyMeasureName
  /-- Expressions are nested in each other to more levels than are read. -/
  | nestingTooDeep (levels : Nat)
  /-- A row of a table constructor is a table constructor. -/
  | nestedTable
  /-- Two rows of a table constructor differ in width. -/
  | unevenRow (expected found : Nat)
  /-- A row of a `DATATABLE` has not one value for each column. -/
  | dataRowWidth (found expected : Nat)
  | unknownColumnType (spelling : String)
  /-- Key performance indicators are recognised and not read. -/
  | keyPerformanceIndicator
  | unknownFormat (spelling : String)
  | accuracyValue
  | thousandSeparatorValue
  | formatStringValue
  | unknownAttribute (name : String)
  | duplicateAttribute (name : String)
  deriving DecidableEq

namespace Issue

/-- The wording of an issue. -/
def message : Issue → String
  | unexpected found expected =>
    "syntax error, unexpected " ++ found.describe ++ ", expecting " ++ expected.describe
  | emptyTableName => "syntax error, empty table name"
  | emptyMeasureName => "syntax error, empty measure name"
  | nestingTooDeep levels =>
    "syntax error, expression nesting exceeds " ++ toString levels ++ " levels"
  | nestedTable => "syntax error, nested table constructors are not supported"
  | unevenRow expected found =>
    "syntax error, table constructor rows must all have the same number of values (expected " ++
      toString expected ++ ", got " ++ toString found ++ ")"
  | dataRowWidth found expected =>
    "syntax error, DATATABLE row has " ++ toString found ++ " values, expected " ++
      toString expected
  | unknownColumnType spelling =>
    "syntax error, unknown DATATABLE column type '" ++ spelling ++ "'"
  | keyPerformanceIndicator => "KPI are not yet supported"
  | unknownFormat spelling => "Wrong calculation property type '" ++ spelling ++ "'"
  | accuracyValue => "syntax error, Accuracy expects a non-negative integer"
  | thousandSeparatorValue => "syntax error, ThousandSeparator expects True or False"
  | formatStringValue => "syntax error, Format expects a quoted string"
  | unknownAttribute name =>
    "syntax error, unknown calculation property attribute '" ++ name ++ "'"
  | duplicateAttribute name =>
    "syntax error, duplicate calculation property attribute '" ++ name ++ "'"

/-- Which kind of diagnostic tells of an issue. -/
def kind : Issue → DiagnosticKind
  | keyPerformanceIndicator => .unsupported
  | _ => .grammar

end Issue

end DaxScript
