import DaxScript.Proofs.Grammar.Rule

/-!
# Rules for operands

The forms that an operand may take, one constructor for each, over rules for the expressions
inside.  A token may be looked at without being read in three places only.  A word or a quoted
name stands alone unless a column or an argument list follows (`TokenKind.standsAlone`), a measure
or a column has filters if a parenthesis follows (`Rule.Filters`), and an expression at the very
end of an operand looks behind it for an operator.
-/

set_option autoImplicit false

namespace DaxScript

open Production

/-! ## What single tokens stand for -/

/-- The table that a token names in front of a column. -/
def Token.tableName? (token : Token) : Option String :=
  match token.kind with
  | .identifier name => some name
  | .quotedName name => some name
  | .keyword .logicalNot => none
  | .keyword _ => some token.spelling
  | _ => none

namespace TokenKind

/-- The function that a token names in front of its arguments. -/
def functionName? : TokenKind → Option String
  | identifier name => some name
  | keyword .trueValue => some "TRUE"
  | keyword .falseValue => some "FALSE"
  | keyword .blank => some "BLANK"
  | keyword .logicalAnd => some "AND"
  | keyword .logicalOr => some "OR"
  | _ => none

/-- What a token says that is an operand by itself. -/
def leaf? : TokenKind → Option (Form Expr)
  | number value => some (.number value)
  | text content => some (.text content)
  | identifier name => some (.tableName name)
  | quotedName name => some (.tableName name)
  | keyword .trueValue => some (.boolean true)
  | keyword .falseValue => some (.boolean false)
  | keyword .blank => some .blank
  | _ => none

/-- Whether a token that may be an operand by itself is one before a token of the given kind. -/
def standsAlone (kind next : TokenKind) : Bool :=
  match kind with
  | number _ => true
  | text _ => true
  | quotedName _ => !isBracketName next
  | _ => !isBracketName next && !isSymbol .leftParen next

end TokenKind

/-- The row that an element of a table constructor makes.  A table makes none. -/
def Expr.row? (value : Expr) : Option (List Expr) :=
  match value.form with
  | .tuple values => some values
  | .table _ => none
  | _ => some [value]

namespace Rule

/-! ## Parts of operands -/

/-- Arguments in parentheses, and the offset behind them. -/
inductive Arguments (expr : Rule Expr) : Rule (List Expr × Nat) where
  | intro {opening closing : Token} {used : List Token} {values : List Expr} {next : TokenKind}
      (opens : opening.kind = .symbol .leftParen)
      (items : SeparatedUnless .rightParen expr used values closing.kind)
      (closes : closing.kind = .symbol .rightParen) :
      Arguments expr (opening :: (used ++ [closing])) (values, closing.span.stop) next

/-- A measure or a column, and filters if a parenthesis follows. -/
inductive Filters (expr : Rule Expr) (target : Expr) : Rule Expr where
  | none {next : TokenKind} (alone : isSymbol .leftParen next = false) :
      Filters expr target [] target next
  | some {used : List Token} {values : List Expr} {stop : Nat} {next : TokenKind}
      (filters : Arguments expr used (values, stop) next) :
      Filters expr target used (.node (.calculate target values) ⟨target.span.start, stop⟩) next

/-- `VAR name = value` -/
inductive Binding (expr : Rule Expr) : Rule (String × Expr) where
  | intro {word symbol equals : Token} {name : String} {used : List Token} {value : Expr}
      {next : TokenKind} (opens : word.kind = .keyword .var)
      (named : symbol.kind = .identifier name) (sign : equals.kind = .symbol .equal)
      (reading : expr used value next) :
      Binding expr (word :: symbol :: equals :: used) (name, value) next

/-- A row of a table constructor, of a given width if there is one. -/
inductive TableRow (expr : Rule Expr) (width? : Option Nat) : Rule (List Expr) where
  | intro {used : List Token} {value : Expr} {row : List Expr} {next : TokenKind}
      (reading : expr used value next) (isRow : value.row? = some row)
      (fits : ∀ width ∈ width?, row.length = width) :
      TableRow expr width? used row next

/-- The rows of a table constructor, all as wide as the first. -/
inductive TableRows (expr : Rule Expr) : Rule (List (List Expr)) where
  | none {next : TokenKind} (closes : next = .symbol .rightBrace) : TableRows expr [] [] next
  | some {used later : List Token} {row : List Expr} {rows : List (List Expr)} {next : TokenKind}
      (opens : kindAfter used (kindAfter later next) ≠ .symbol .rightBrace)
      (first : TableRow expr Option.none used row (kindAfter later next))
      (others : CommaSeparated (TableRow expr (Option.some row.length)) later rows next) :
      TableRows expr (used ++ later) (row :: rows) next

/-- `"name", TYPE,` -/
inductive DataColumn : Rule Column where
  | intro {text between word after : Token} {name : String} {spelling : String}
      {type : ColumnType} {next : TokenKind} (named : text.kind = .text name)
      (comma : between.kind = .symbol .comma) (typed : word.kind = .identifier spelling)
      (known : ColumnType.ofWord? spelling = some type) (comma' : after.kind = .symbol .comma) :
      DataColumn [text, between, word, after] ⟨name, type⟩ next

/-- A cell of a row of data, which may be left out. -/
inductive DataCell (expr : Rule Expr) : Rule (Option Expr) where
  | absent {next : TokenKind}
      (ends : (isSymbol .comma next || isSymbol .rightBrace next) = true) :
      DataCell expr [] none next
  | present {used : List Token} {value : Expr} {next : TokenKind}
      (starts : (isSymbol .comma (kindAfter used next) ||
        isSymbol .rightBrace (kindAfter used next)) = false)
      (reading : expr used value next) :
      DataCell expr used (some value) next

/-- `{cell, cell, ...}` -/
inductive DataRow (expr : Rule Expr) (width : Nat) : Rule (List (Option Expr)) where
  | intro {opening closing : Token} {used : List Token} {cells : List (Option Expr)}
      {next : TokenKind} (opens : opening.kind = .symbol .leftBrace)
      (items : Separated (DataCell expr) used cells closing.kind)
      (closes : closing.kind = .symbol .rightBrace) (fits : cells.length = width) :
      DataRow expr width (opening :: (used ++ [closing])) cells next

/-! ## Operands -/

/-- The forms of operands, over the rules for expressions of a least level. -/
inductive Operand (expr : Nat → Rule Expr) : Rule Expr where
  | leaf {token : Token} {form : Form Expr} {next : TokenKind}
      (stated : token.kind.leaf? = some form) (alone : token.kind.standsAlone next = true) :
      Operand expr [token] (.node form token.span) next
  | measure {token : Token} {name : String} {used : List Token} {value : Expr} {next : TokenKind}
      (named : token.kind = .bracketName name)
      (filters : Filters (expr 0) (.node (.measure name) token.span) used value next) :
      Operand expr (token :: used) value next
  | column {table column : Token} {tableName columnName : String} {used : List Token}
      {value : Expr} {next : TokenKind} (tableNamed : table.tableName? = some tableName)
      (columnNamed : column.kind = .bracketName columnName)
      (filters : Filters (expr 0)
        (.node (.column tableName columnName) (table.span.cover column.span)) used value next) :
      Operand expr (table :: column :: used) value next
  | call {token : Token} {name : String} {used : List Token} {values : List Expr} {stop : Nat}
      {next : TokenKind} (named : token.kind.functionName? = some name)
      (arguments : Arguments (expr 0) used (values, stop) next) :
      Operand expr (token :: used) (.node (.call name values) ⟨token.span.start, stop⟩) next
  | unary {token : Token} {operator : UnaryOperator} {used : List Token} {value : Expr}
      {next : TokenKind} (sign : UnaryOperator.ofKind? token.kind = some operator)
      (operand : expr operator.operandLevel used value next) :
      Operand expr (token :: used)
        (.node (.unary operator value) (token.span.cover value.span)) next
  | bindings {word result : Token} {used later : List Token} {values : List (String × Expr)}
      {body : Expr} {next : TokenKind} (opens : word.kind = .keyword .var)
      (items : Repeated (isKeyword .var) (Binding (expr 0)) (word :: used) values result.kind)
      (separates : result.kind = .keyword .result) (reading : expr 0 later body next) :
      Operand expr (word :: (used ++ result :: later))
        (.node (.bindings values body) ⟨word.span.start, body.span.stop⟩) next
  | group {opening closing : Token} {used : List Token} {value : Expr} {next : TokenKind}
      (opens : opening.kind = .symbol .leftParen) (reading : expr 0 used value closing.kind)
      (closes : closing.kind = .symbol .rightParen) :
      Operand expr (opening :: (used ++ [closing]))
        (value.withSpan (opening.span.cover closing.span)) next
  | tuple {opening closing : Token} {used : List Token} {first second : Expr}
      {others : List Expr} {next : TokenKind} (opens : opening.kind = .symbol .leftParen)
      (items : Separated (expr 0) used (first :: second :: others) closing.kind)
      (closes : closing.kind = .symbol .rightParen) :
      Operand expr (opening :: (used ++ [closing]))
        (.node (.tuple (first :: second :: others)) (opening.span.cover closing.span)) next
  | table {opening closing : Token} {used : List Token} {rows : List (List Expr)}
      {next : TokenKind} (opens : opening.kind = .symbol .leftBrace)
      (items : TableRows (expr 0) used rows closing.kind)
      (closes : closing.kind = .symbol .rightBrace) :
      Operand expr (opening :: (used ++ [closing]))
        (.node (.table rows) (opening.span.cover closing.span)) next
  | dataTable {word outer opening closing last : Token} {used later : List Token}
      {columns : List Column} {rows : List (List (Option Expr))} {next : TokenKind}
      (named : word.kind = .keyword .dataTable) (opens : outer.kind = .symbol .leftParen)
      (heads : Repeated (!isSymbol .leftBrace ·) DataColumn used columns opening.kind)
      (some : columns ≠ []) (opensRows : opening.kind = .symbol .leftBrace)
      (items : SeparatedUnless .rightBrace (DataRow (expr 0) columns.length) later rows
        closing.kind)
      (closesRows : closing.kind = .symbol .rightBrace)
      (closes : last.kind = .symbol .rightParen) :
      Operand expr (word :: outer :: (used ++ opening :: (later ++ [closing, last])))
        (.node (.dataTable columns rows) (word.span.cover last.span)) next

/-! ## Larger rules for expressions give larger rules for operands -/

section Within

variable {expr other : Rule Expr}

theorem Arguments.mono (within : expr.Within other) :
    (Arguments expr).Within (Arguments other) := by
  intro used values next reading
  cases reading with
  | intro opens items closes => exact .intro opens (.mono within items) closes

theorem Filters.mono (within : expr.Within other) (target : Expr) :
    (Filters expr target).Within (Filters other target) := by
  intro used value next reading
  cases reading with
  | none alone => exact .none alone
  | some filters => exact .some (.mono within filters)

theorem Binding.mono (within : expr.Within other) : (Binding expr).Within (Binding other) := by
  intro used values next reading
  cases reading with
  | intro opens named sign reading => exact .intro opens named sign (within reading)

theorem TableRow.mono (within : expr.Within other) (width? : Option Nat) :
    (TableRow expr width?).Within (TableRow other width?) := by
  intro used row next reading
  cases reading with
  | intro reading isRow fits => exact .intro (within reading) isRow fits

theorem TableRows.mono (within : expr.Within other) :
    (TableRows expr).Within (TableRows other) := by
  intro used rows next reading
  cases reading with
  | none closes => exact .none closes
  | some opens first others =>
    exact .some opens (.mono within _ first) (Repeated.mono (.mono (.mono within _)) others)

theorem DataCell.mono (within : expr.Within other) : (DataCell expr).Within (DataCell other) := by
  intro used cell next reading
  cases reading with
  | absent ends => exact .absent ends
  | present starts reading => exact .present starts (within reading)

theorem DataRow.mono (within : expr.Within other) (width : Nat) :
    (DataRow expr width).Within (DataRow other width) := by
  intro used row next reading
  cases reading with
  | intro opens items closes fits => exact .intro opens (.mono (.mono within) items) closes fits

end Within

theorem Operand.mono {expr other : Nat → Rule Expr}
    (within : ∀ level, (expr level).Within (other level)) :
    (Operand expr).Within (Operand other) := by
  intro used value next reading
  cases reading with
  | leaf stated alone => exact .leaf stated alone
  | measure named filters => exact .measure named (.mono (within 0) _ filters)
  | column tableNamed columnNamed filters =>
    exact .column tableNamed columnNamed (.mono (within 0) _ filters)
  | call named arguments => exact .call named (.mono (within 0) arguments)
  | unary sign operand => exact .unary sign (within _ operand)
  | bindings opens items separates reading =>
    exact .bindings opens (.mono (.mono (within 0)) items) separates (within 0 reading)
  | group opens reading closes => exact .group opens (within 0 reading) closes
  | tuple opens items closes => exact .tuple opens (.mono (within 0) items) closes
  | table opens items closes => exact .table opens (.mono (within 0) items) closes
  | dataTable named opens heads some opensRows items closesRows closes =>
    exact .dataTable named opens heads some opensRows (.mono (.mono (within 0) _) items)
      closesRows closes

/-! ## Operands may be cut off behind -/

section Ends

variable {kinds : TokenKind → Prop}

/-- Behind the closing parenthesis anything may stand. -/
theorem Arguments.staysBefore (expr : Rule Expr) : (Arguments expr).StaysBefore kinds := by
  intro used values next last reading _
  cases reading with
  | intro opens items closes => exact .intro opens items closes

theorem Filters.staysBefore (noArguments : ∀ last, kinds last → isSymbol .leftParen last = false)
    (expr : Rule Expr) (target : Expr) : (Filters expr target).StaysBefore kinds := by
  intro used value next last reading isOne
  cases reading with
  | none => exact .none (noArguments last isOne)
  | some filters => exact .some (Arguments.staysBefore expr filters isOne)

/-- Operands stay what they are before tokens that begin neither arguments nor a column. -/
theorem Operand.staysBefore
    (nothing : ∀ last, kinds last →
      isBracketName last = false ∧ isSymbol .leftParen last = false)
    {expr : Nat → Rule Expr} (stays : ∀ level, (expr level).StaysBefore kinds) :
    (Operand expr).StaysBefore kinds := by
  have filters := Filters.staysBefore fun last isOne => (nothing last isOne).2
  intro used value next last reading isOne
  cases reading with
  | @leaf token form _ stated alone =>
    refine .leaf stated ?_
    obtain ⟨noBracket, noParen⟩ := nothing last isOne
    cases kind : token.kind <;> simp [TokenKind.standsAlone, noBracket, noParen]
  | measure named reading => exact .measure named (filters _ _ reading isOne)
  | column tableNamed columnNamed reading =>
    exact .column tableNamed columnNamed (filters _ _ reading isOne)
  | call named arguments => exact .call named (Arguments.staysBefore _ arguments isOne)
  | unary sign operand => exact .unary sign (stays _ operand isOne)
  | bindings opens items separates reading =>
    exact .bindings opens items separates (stays 0 reading isOne)
  | group opens reading closes => exact .group opens reading closes
  | tuple opens items closes => exact .tuple opens items closes
  | table opens items closes => exact .table opens items closes
  | dataTable named opens heads some opensRows items closesRows closes =>
    exact .dataTable named opens heads some opensRows items closesRows closes

end Ends

/-- A token that ends a statement begins neither arguments nor a column. -/
theorem nothingFollows_of_endsStatement {last : TokenKind} (ends : endsStatement last = true) :
    isBracketName last = false ∧ isSymbol .leftParen last = false := by
  cases last with
  | symbol sign => cases sign <;> first | exact ⟨rfl, rfl⟩ | cases ends
  | bracketName => cases ends
  | _ => exact ⟨rfl, rfl⟩

end Rule

end DaxScript
