import DaxScript.Grammar.Climbing

/-!
# Operands

An operand is what stands between binary operators: a literal, a name, a call, something in
parentheses or braces, a block of variables, or a sign in front of another operand.  Most of them
contain expressions.  How these are read is a parameter, the production of an expression of a
least level, so that nothing here is recursive.
-/

set_option autoImplicit false

namespace DaxScript.Production

/-- The production of an expression with operators of at least a level. -/
abbrev ExprProduction : Type :=
  (level : Nat) → Production Expr 1

/-- A node read from a single token. -/
def leaf (form : Form Expr) (token : Token) (rest : List Token) : Reading Expr 1 (token :: rest) :=
  .ok (.single (.node form token.span) token rest)

/-- Whether a token is a name in brackets. -/
def isBracketName : TokenKind → Bool
  | .bracketName _ => true
  | _ => false

/-! ## Names and calls -/

/-- Reads arguments in parentheses, and returns them with the offset behind the parentheses. -/
def arguments (expr : ExprProduction) (tokens : List Token) :
    Reading (List Expr × Nat) 1 tokens := do
  let opening ← symbol .leftParen tokens
  let values ← separatedUnless .rightParen (expr 0) opening.rest
  let closing ← symbol .rightParen values.rest
  .ok ⟨(values.value, closing.value.span.stop), closing.rest, by
    have := opening.fits
    have := values.fits
    have := closing.fits
    omega⟩

/-- Reads the filters after a measure or a column, if there are any. -/
def filtersOf (expr : ExprProduction) (target : Expr) (tokens : List Token) :
    Reading Expr 0 tokens :=
  if isSymbol .leftParen (nextKind tokens) then do
    let filters ← arguments expr tokens
    .ok (filters.weaken.map fun values =>
      .node (.calculate target values.1) ⟨target.span.start, values.2⟩)
  else .ok (.nothing target tokens)

/-- Reads the column after a table name, if there is one.  The name alone may also be a
variable. -/
def columnOf (expr : ExprProduction) (table : String) (span : Span) (tokens : List Token) :
    Reading Expr 0 tokens :=
  match tokens with
  | ⟨.bracketName column, columnSpan, _, _⟩ :: rest => do
    let target := Expr.node (.column table column) (span.cover columnSpan)
    let whole ← filtersOf expr target rest
    .ok (whole.behind _).weaken
  | tokens => .ok (.nothing (.node (.tableName table) span) tokens)

/-- Reads what follows the name of a table or a variable. -/
def named (expr : ExprProduction) (name : String) (token : Token) (rest : List Token) :
    Reading Expr 1 (token :: rest) := do
  let whole ← columnOf expr name token.span rest
  .ok (whole.behind token)

/-- Reads what follows the name of a function. -/
def called (expr : ExprProduction) (name : String) (token : Token) (rest : List Token) :
    Reading Expr 1 (token :: rest) := do
  let values ← arguments expr rest
  let call := values.map fun values => .node (.call name values.1) ⟨token.span.start, values.2⟩
  .ok (call.behind token)

/-- Reads what follows a measure. -/
def measured (expr : ExprProduction) (name : String) (token : Token) (rest : List Token) :
    Reading Expr 1 (token :: rest) := do
  let whole ← filtersOf expr (.node (.measure name) token.span) rest
  .ok (whole.behind token)

/-! ## Signs and variables -/

/-- Reads what follows an operator in front of an operand. -/
def signed (expr : ExprProduction) (operator : UnaryOperator) (token : Token)
    (rest : List Token) : Reading Expr 1 (token :: rest) := do
  let operand ← expr operator.operandLevel rest
  let whole := operand.map fun value =>
    .node (.unary operator value) (token.span.cover value.span)
  .ok (whole.behind token)

/-- Reads the name of a variable. -/
def variableName (tokens : List Token) : Reading String 1 tokens :=
  match tokens with
  | ⟨.identifier name, _, _, _⟩ :: rest => .ok (.single name _ rest)
  | tokens => .error (expected tokens .variableName)

/-- Reads `VAR name = value`. -/
def binding (expr : ExprProduction) (tokens : List Token) : Reading (String × Expr) 1 tokens := do
  let opening ← keyword .var tokens
  let name ← variableName opening.rest
  let equals ← symbol .equal name.rest
  let value ← expr 0 equals.rest
  .ok ⟨(name.value, value.value), value.rest, by
    have := opening.fits
    have := name.fits
    have := equals.fits
    have := value.fits
    omega⟩

/-- Reads `VAR name = value ... RETURN body`, given that a variable comes first. -/
def bindingsFrom (expr : ExprProduction) (start : Nat) (tokens : List Token) :
    Reading Expr 1 tokens := do
  let values ← manyWhile (isKeyword .var) (binding expr) tokens
  let result ← keyword .result values.rest
  let body ← expr 0 result.rest
  .ok ⟨.node (.bindings values.value body.value) ⟨start, body.value.span.stop⟩, body.rest, by
    have := values.fits
    have := result.fits
    have := body.fits
    omega⟩

/-! ## Parentheses and braces -/

/-- Reads `(value)`, which is the value itself with a wider span, or `(value, value, ...)`. -/
def group (expr : ExprProduction) (tokens : List Token) : Reading Expr 1 tokens := do
  let opening ← symbol .leftParen tokens
  let values ← separated (expr 0) opening.rest
  let closing ← symbol .rightParen values.rest
  let span := opening.value.span.cover closing.value.span
  let whole := match values.value with
    | [value] => value.withSpan span
    | values => .node (.tuple values) span
  .ok ⟨whole, closing.rest, by
    have := opening.fits
    have := values.fits
    have := closing.fits
    omega⟩

/-- Reads a row of a table constructor.  A tuple is a row of several values, and anything else
is a row of one.  All rows are as wide as the first. -/
def tableRow (expr : ExprProduction) (width? : Option Nat) (tokens : List Token) :
    Reading (List Expr) 1 tokens := do
  let value ← expr 0 tokens
  let refusal (issue : Issue) : Refusal :=
    ⟨issue, nextPosition? tokens, value.rest.length, value.rest.length⟩
  let row ← match value.value.form with
    | .tuple values => .ok values
    | .table _ => .error (refusal .nestedTable)
    | _ => .ok [value.value]
  match width? with
  | some width => if row.length ≠ width then .error (refusal (.unevenRow width row.length))
  | none => .ok ()
  .ok ⟨row, value.rest, value.fits⟩

/-- Reads the rows of a table constructor. -/
def tableRows (expr : ExprProduction) (tokens : List Token) :
    Reading (List (List Expr)) 0 tokens :=
  if isSymbol .rightBrace (nextKind tokens) then .ok (.nothing [] tokens)
  else do
    let first ← tableRow expr none tokens
    let others ← commaSeparated (weaken (tableRow expr (some first.value.length))) first.rest
    .ok ⟨first.value :: others.value, others.rest, by
      have := first.fits
      have := others.fits
      omega⟩

/-- Reads `{row, row, ...}`. -/
def table (expr : ExprProduction) (tokens : List Token) : Reading Expr 1 tokens := do
  let opening ← symbol .leftBrace tokens
  let rows ← tableRows expr opening.rest
  let closing ← symbol .rightBrace rows.rest
  .ok ⟨.node (.table rows.value) (opening.value.span.cover closing.value.span), closing.rest, by
    have := opening.fits
    have := rows.fits
    have := closing.fits
    omega⟩

/-! ## Tables of data -/

/-- Reads the name of a column. -/
def columnName (tokens : List Token) : Reading String 1 tokens :=
  match tokens with
  | ⟨.text name, _, _, _⟩ :: rest => .ok (.single name _ rest)
  | tokens => .error (expected tokens .columnNameOrRows)

/-- Reads the type of a column.  A token that is none is read all the same. -/
def columnType (tokens : List Token) : Reading ColumnType 1 tokens :=
  match tokens with
  | [] => .error (reject [] (.unknownColumnType ""))
  | token :: rest =>
    let type? := match token.kind with
      | .identifier word => ColumnType.ofWord? word
      | _ => none
    match type? with
    | some type => .ok (.single type token rest)
    | none => .error (reject (token :: rest) (.unknownColumnType token.spelling))

/-- Reads `"name", TYPE,`. -/
def dataColumn (tokens : List Token) : Reading Column 1 tokens := do
  let name ← columnName tokens
  let between ← symbol .comma name.rest
  let type ← columnType between.rest
  let after ← symbol .comma type.rest
  .ok ⟨⟨name.value, type.value⟩, after.rest, by
    have := name.fits
    have := between.fits
    have := type.fits
    have := after.fits
    omega⟩

/-- Reads a cell of a row of data, which may be left out. -/
def dataCell (expr : ExprProduction) (tokens : List Token) : Reading (Option Expr) 0 tokens :=
  if isSymbol .comma (nextKind tokens) || isSymbol .rightBrace (nextKind tokens) then
    .ok (.nothing none tokens)
  else do
    let value ← expr 0 tokens
    .ok (value.weaken.map some)

/-- Reads `{cell, cell, ...}` with as many cells as there are columns. -/
def dataRow (expr : ExprProduction) (width : Nat) (tokens : List Token) :
    Reading (List (Option Expr)) 1 tokens := do
  let opening ← symbol .leftBrace tokens
  let cells ← separated (dataCell expr) opening.rest
  let closing ← symbol .rightBrace cells.rest
  if cells.value.length ≠ width then
    .error ⟨.dataRowWidth cells.value.length width, nextPosition? tokens,
      closing.rest.length, closing.rest.length + 1⟩
  else
    .ok ⟨cells.value, closing.rest, by
      have := opening.fits
      have := cells.fits
      have := closing.fits
      omega⟩

/-- Reads `DATATABLE("name", TYPE, ..., {row, row, ...})`. -/
def dataTable (expr : ExprProduction) (tokens : List Token) : Reading Expr 1 tokens := do
  let word ← keyword .dataTable tokens
  let outer ← symbol .leftParen word.rest
  let columns ← manyWhile (!isSymbol .leftBrace ·) dataColumn outer.rest
  if columns.value.isEmpty then .error (expected columns.rest .columnName)
  let opening ← symbol .leftBrace columns.rest
  let rows ← separatedUnless .rightBrace (dataRow expr columns.value.length) opening.rest
  let closing ← symbol .rightBrace rows.rest
  let last ← symbol .rightParen closing.rest
  let span := word.value.span.cover last.value.span
  .ok ⟨.node (.dataTable columns.value rows.value) span, last.rest, by
    have := word.fits
    have := outer.fits
    have := columns.fits
    have := opening.fits
    have := rows.fits
    have := closing.fits
    have := last.fits
    omega⟩

/-! ## The choice between them -/

/-- Refuses the next token as no operand.  To tell a call and a column from a name on its own,
the token after it has been looked at as well. -/
def noOperand (tokens : List Token) : Refusal :=
  { expected tokens .expression with unseen := tokens.length - 1 }

/-- Reads an operand that begins with a keyword.  In front of a name in brackets every keyword
but `NOT` is the name of a table. -/
def keywordOperand (expr : ExprProduction) (word : Keyword) (token : Token) (rest : List Token) :
    Reading Expr 1 (token :: rest) :=
  if isBracketName (nextKind rest) && word != .logicalNot then
    named expr token.spelling token rest
  else
    let isCall := isSymbol .leftParen (nextKind rest)
    match word with
    | .var => bindingsFrom expr token.span.start (token :: rest)
    | .logicalNot => signed expr .logicalNot token rest
    | .dataTable => dataTable expr (token :: rest)
    | .trueValue =>
      if isCall then called expr word.name token rest else leaf (.boolean true) token rest
    | .falseValue =>
      if isCall then called expr word.name token rest else leaf (.boolean false) token rest
    | .blank => if isCall then called expr word.name token rest else leaf .blank token rest
    | .logicalAnd | .logicalOr =>
      if isCall then called expr word.name token rest else .error (noOperand (token :: rest))
    | _ => .error (noOperand (token :: rest))

/-- Reads an operand. -/
def operandOf (expr : ExprProduction) (tokens : List Token) : Reading Expr 1 tokens :=
  match tokens with
  | [] => .error (noOperand [])
  | token :: rest =>
    match token.kind with
    | .keyword word => keywordOperand expr word token rest
    | .symbol .minus => signed expr .negate token rest
    | .symbol .plus => signed expr .plus token rest
    | .number value => leaf (.number value) token rest
    | .text content => leaf (.text content) token rest
    | .identifier name =>
      if isSymbol .leftParen (nextKind rest) then called expr name token rest
      else named expr name token rest
    | .quotedName name => named expr name token rest
    | .bracketName name => measured expr name token rest
    | .symbol .leftParen => group expr (token :: rest)
    | .symbol .leftBrace => table expr (token :: rest)
    | _ => .error (noOperand (token :: rest))

end DaxScript.Production
