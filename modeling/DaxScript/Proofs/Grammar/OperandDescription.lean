import DaxScript.Proofs.Grammar.Description
import DaxScript.Proofs.Grammar.OperandRule

/-!
# The rules for operands describe their productions

Given that the rules for expressions describe the productions of expressions, the rules for
operands describe the productions of operands (`describes_operandOf`).  The parts of operands come
first, each production with the rule of the same name.
-/

set_option autoImplicit false

namespace DaxScript

open Production

variable {expr : ExprProduction} {rule : Nat → Rule Expr} {tokens rest : List Token}

/-! ## Looking at the next token -/

theorem isSymbol_iff {sign : Symbol} {kind : TokenKind} :
    isSymbol sign kind = true ↔ kind = .symbol sign := by
  simp [isSymbol]

theorem isKeyword_iff {word : Keyword} {kind : TokenKind} :
    isKeyword word kind = true ↔ kind = .keyword word := by
  simp [isKeyword]

/-! ## What groups and rows are made of -/

/-- What the values in parentheses stand for: one for itself, several for a tuple. -/
def ofGroup (span : Span) : List Expr → Expr
  | [value] => value.withSpan span
  | values => .node (.tuple values) span

/-- What becomes of the element of a table constructor: a row, or a refusal. -/
def rowOutcome (width? : Option Nat) (tokens : List Token) :
    Parsed Expr 1 tokens → Reading (List Expr) 1 tokens
  | ⟨value, rest, fits⟩ =>
    let refusal (issue : Issue) : Refusal :=
      ⟨issue, nextPosition? tokens, rest.length, rest.length⟩
    match value.row? with
    | none => .error (refusal .nestedTable)
    | some row =>
      if ∀ width ∈ width?, row.length = width then .ok ⟨row, rest, fits⟩
      else .error (refusal (.unevenRow (width?.getD 0) row.length))

theorem tableRow_eq (expr : ExprProduction) (width? : Option Nat) (tokens : List Token) :
    tableRow expr width? tokens = expr 0 tokens >>= rowOutcome width? tokens := by
  unfold tableRow
  congr 1
  funext element
  obtain ⟨⟨form, span⟩, rest, fits⟩ := element
  cases width? with
  | none => cases form <;> rfl
  | some width =>
    let refusal (issue : Issue) : Refusal := ⟨issue, nextPosition? tokens, rest.length, rest.length⟩
    have judged (row : List Expr) :
        (if row.length ≠ width then .error (refusal (.unevenRow width row.length))
          else .ok ⟨row, rest, fits⟩ : Reading (List Expr) 1 tokens) =
        if ∀ known ∈ some width, row.length = known then .ok ⟨row, rest, fits⟩
          else .error (refusal (.unevenRow width row.length)) := by
      by_cases even : row.length = width <;> simp [even]
    cases form with
    | table => rfl
    | tuple values => exact judged values
    | _ => exact judged [_]

section Parts

variable (described : ∀ level, Describes (rule level) (expr level))
include described

/-! ## Names and calls -/

theorem describes_arguments : Describes (.Arguments (rule 0)) (arguments expr) where
  sound reading := by
    obtain ⟨opening, _, _, first, reading⟩ := reading.bind
    obtain ⟨values, _, _, second, reading⟩ := reading.bind
    obtain ⟨closing, _, _, third, reading⟩ := reading.bind
    obtain ⟨rfl, rfl⟩ := Yields.ok_iff.mp reading
    obtain ⟨rfl, opens⟩ := yields_symbol_iff.mp first
    obtain ⟨used, rfl, items⟩ := (describes_separatedUnless (described 0)).sound second
    obtain ⟨rfl, closes⟩ := yields_symbol_iff.mp third
    exact ⟨opening :: (used ++ [closing]), by simp, .intro opens items closes⟩
  complete {used values rest} reading := by
    cases reading with
    | @intro opening closing used values _ opens items closes =>
      rw [List.cons_append, List.append_assoc, List.singleton_append]
      refine (yields_symbol opens).andThen fun _ => ?_
      refine ((describes_separatedUnless (described 0)).complete items).andThen fun _ => ?_
      refine (yields_symbol closes).andThen fun _ => ?_
      exact Yields.of_ok

theorem describes_filtersOf (target : Expr) :
    Describes (.Filters (rule 0) target) (filtersOf expr target) where
  sound {tokens value rest} reading := by
    unfold filtersOf at reading
    split at reading
    · obtain ⟨filters, _, _, first, reading⟩ := reading.bind
      obtain ⟨rfl, rfl⟩ := Yields.ok_iff.mp reading
      obtain ⟨used, same, read⟩ := (describes_arguments described).sound first
      exact ⟨used, same, .some read⟩
    · next alone =>
      obtain ⟨rfl, rfl⟩ := Yields.ok_iff.mp reading
      exact ⟨[], rfl, .none (Bool.eq_false_iff.mpr alone)⟩
  complete {used value rest} reading := by
    unfold filtersOf
    cases reading with
    | none alone =>
      rw [if_neg (by simp [alone])]
      exact Yields.of_ok
    | some filters =>
      have opens : isSymbol .leftParen (nextKind (used ++ rest)) = true := by
        cases filters with
        | intro opens => simp [isSymbol, opens]
      rw [if_pos opens]
      refine ((describes_arguments described).complete filters).andThen fun _ => ?_
      exact Yields.of_ok

/-- What follows a name on its own: nothing, or a column with what follows that. -/
theorem yields_columnOf {table : String} {span : Span} {value : Expr}
    (reading : Yields (columnOf expr table span tokens) value rest) :
    (isBracketName (nextKind tokens) = false ∧ value = .node (.tableName table) span ∧
      rest = tokens) ∨
    ∃ column name used, tokens = column :: (used ++ rest) ∧ column.kind = .bracketName name ∧
      Rule.Filters (rule 0) (.node (.column table name) (span.cover column.span)) used value
        (nextKind rest) := by
  unfold columnOf at reading
  split at reading
  · next column columnSpan position spelling others =>
    obtain ⟨whole, _, _, first, reading⟩ := reading.bind
    obtain ⟨rfl, rfl⟩ := Yields.ok_iff.mp reading
    obtain ⟨used, rfl, read⟩ := (describes_filtersOf described _).sound first
    exact .inr ⟨⟨.bracketName column, columnSpan, position, spelling⟩, column, used, rfl, rfl, read⟩
  · next others noColumn =>
    obtain ⟨rfl, rfl⟩ := Yields.ok_iff.mp reading
    refine .inl ⟨?_, rfl, rfl⟩
    cases tokens with
    | nil => rfl
    | cons token tokens =>
      obtain ⟨kind, span, position, spelling⟩ := token
      cases kind with
      | bracketName name => exact absurd rfl (noColumn name span position spelling tokens)
      | _ => rfl

omit described in
theorem yields_columnOf_of_not_bracketName {table : String} {span : Span}
    (alone : isBracketName (nextKind tokens) = false) :
    Yields (columnOf expr table span tokens) (.node (.tableName table) span) tokens := by
  unfold columnOf
  split
  · cases alone
  · exact Yields.of_ok

theorem yields_columnOf_of_bracketName {table name : String} {span : Span} {column : Token}
    {used : List Token} {value : Expr} (named : column.kind = .bracketName name)
    (filters : Rule.Filters (rule 0) (.node (.column table name) (span.cover column.span)) used
      value (nextKind rest)) :
    Yields (columnOf expr table span (column :: (used ++ rest))) value rest := by
  obtain ⟨kind, columnSpan, position, spelling⟩ := column
  cases named
  exact ((describes_filtersOf described _).complete filters).andThen fun _ => Yields.of_ok

/-! ## Variables -/

omit described in
theorem yields_variableName_iff {name : String} :
    Yields (variableName tokens) name rest ↔
      ∃ token, tokens = token :: rest ∧ token.kind = .identifier name := by
  constructor
  · intro reading
    unfold variableName at reading
    split at reading
    · next spelled span position spelling others =>
      obtain ⟨rfl, rfl⟩ := Yields.ok_iff.mp reading
      exact ⟨⟨.identifier spelled, span, position, spelling⟩, rfl, rfl⟩
    · exact absurd reading Yields.not_error
  · rintro ⟨⟨kind, span, position, spelling⟩, rfl, named⟩
    cases named
    exact Yields.of_ok

theorem describes_binding : Describes (.Binding (rule 0)) (binding expr) where
  sound reading := by
    obtain ⟨opening, _, _, first, reading⟩ := reading.bind
    obtain ⟨name, _, _, second, reading⟩ := reading.bind
    obtain ⟨equals, _, _, third, reading⟩ := reading.bind
    obtain ⟨value, _, _, fourth, reading⟩ := reading.bind
    obtain ⟨rfl, rfl⟩ := Yields.ok_iff.mp reading
    obtain ⟨rfl, opens⟩ := yields_keyword_iff.mp first
    obtain ⟨symbol, rfl, named⟩ := yields_variableName_iff.mp second
    obtain ⟨rfl, sign⟩ := yields_symbol_iff.mp third
    obtain ⟨used, rfl, read⟩ := (described 0).sound fourth
    exact ⟨opening :: symbol :: equals :: used, rfl, .intro opens named sign read⟩
  complete {used value rest} reading := by
    cases reading with
    | intro opens named sign reading =>
      refine (yields_keyword opens).andThen fun _ => ?_
      refine (yields_variableName_iff.mpr ⟨_, rfl, named⟩).andThen fun _ => ?_
      refine (yields_symbol sign).andThen fun _ => ?_
      refine ((described 0).complete reading).andThen fun _ => ?_
      exact Yields.of_ok

/-! ## Rows of tables -/

theorem describes_tableRow (width? : Option Nat) :
    Describes (.TableRow (rule 0) width?) (tableRow expr width?) where
  sound {tokens row rest} reading := by
    rw [tableRow_eq] at reading
    obtain ⟨value, left, _, first, reading⟩ := reading.bind
    obtain ⟨used, rfl, read⟩ := (described 0).sound first
    unfold rowOutcome at reading
    cases found : value.row? with
    | none => simp only [found, Yields.not_error] at reading
    | some found =>
      simp only [found] at reading
      split at reading
      · next fits =>
        obtain ⟨rfl, rfl⟩ := Yields.ok_iff.mp reading
        exact ⟨used, rfl, .intro read ‹_› fits⟩
      · exact absurd reading Yields.not_error
  complete {used row rest} reading := by
    rw [tableRow_eq]
    cases reading with
    | intro reading isRow fits =>
      refine ((described 0).complete reading).andThen fun _ => ?_
      simp only [rowOutcome, isRow]
      rw [if_pos fits]
      exact Yields.of_ok

theorem describes_tableRows : Describes (.TableRows (rule 0)) (tableRows expr) where
  sound {tokens rows rest} reading := by
    unfold tableRows at reading
    split at reading
    · next closes =>
      obtain ⟨rfl, rfl⟩ := Yields.ok_iff.mp reading
      exact ⟨[], rfl, .none (isSymbol_iff.mp closes)⟩
    · next opens =>
      obtain ⟨row, _, _, first, reading⟩ := reading.bind
      obtain ⟨others, _, _, second, reading⟩ := reading.bind
      obtain ⟨rfl, rfl⟩ := Yields.ok_iff.mp reading
      obtain ⟨used, rfl, read⟩ := (describes_tableRow described none).sound first
      obtain ⟨more, rfl, readOthers⟩ :=
        (describes_commaSeparated (describes_tableRow described _).weaken).sound second
      rw [nextKind_append] at read
      refine ⟨used ++ more, (List.append_assoc _ _ _).symm, .some ?_ read readOthers⟩
      simpa [isSymbol] using opens
  complete {used rows rest} reading := by
    unfold tableRows
    cases reading with
    | none closes =>
      rw [List.nil_append, if_pos (isSymbol_iff.mpr closes)]
      exact Yields.of_ok
    | @some used later row rows _ opens first others =>
      rw [if_neg (by simpa [isSymbol] using opens), List.append_assoc]
      rw [← nextKind_append] at first
      refine ((describes_tableRow described none).complete first).andThen fun _ => ?_
      refine ((describes_commaSeparated (describes_tableRow described _).weaken).complete
        others).andThen fun _ => ?_
      exact Yields.of_ok

/-! ## Tables of data -/

omit described in
theorem yields_columnName_iff {name : String} :
    Yields (columnName tokens) name rest ↔
      ∃ token, tokens = token :: rest ∧ token.kind = .text name := by
  constructor
  · intro reading
    unfold columnName at reading
    split at reading
    · next content span position spelling others =>
      obtain ⟨rfl, rfl⟩ := Yields.ok_iff.mp reading
      exact ⟨⟨.text content, span, position, spelling⟩, rfl, rfl⟩
    · exact absurd reading Yields.not_error
  · rintro ⟨⟨kind, span, position, spelling⟩, rfl, named⟩
    cases named
    exact Yields.of_ok

omit described in
theorem yields_columnType_iff {type : ColumnType} :
    Yields (columnType tokens) type rest ↔ ∃ token word, tokens = token :: rest ∧
      token.kind = .identifier word ∧ ColumnType.ofWord? word = some type := by
  constructor
  · intro reading
    cases tokens with
    | nil => exact absurd reading Yields.not_error
    | cons token others =>
      simp only [columnType] at reading
      split at reading
      · next found =>
        obtain ⟨rfl, rfl⟩ := Yields.ok_iff.mp reading
        split at found
        · next word typed => exact ⟨token, word, rfl, typed, found⟩
        · cases found
      · exact absurd reading Yields.not_error
  · rintro ⟨token, word, rfl, typed, known⟩
    simp only [columnType, typed, known]
    exact Yields.of_ok

omit described in
theorem describes_dataColumn : Describes .DataColumn dataColumn where
  sound {tokens column rest} reading := by
    obtain ⟨name, _, _, first, reading⟩ := reading.bind
    obtain ⟨between, _, _, second, reading⟩ := reading.bind
    obtain ⟨type, _, _, third, reading⟩ := reading.bind
    obtain ⟨after, _, _, fourth, reading⟩ := reading.bind
    obtain ⟨rfl, rfl⟩ := Yields.ok_iff.mp reading
    obtain ⟨text, rfl, named⟩ := yields_columnName_iff.mp first
    obtain ⟨rfl, comma⟩ := yields_symbol_iff.mp second
    obtain ⟨word, spelling, rfl, typed, known⟩ := yields_columnType_iff.mp third
    obtain ⟨rfl, comma'⟩ := yields_symbol_iff.mp fourth
    exact ⟨[text, between, word, after], rfl, .intro named comma typed known comma'⟩
  complete {used column rest} reading := by
    cases reading with
    | intro named comma typed known comma' =>
      refine (yields_columnName_iff.mpr ⟨_, rfl, named⟩).andThen fun _ => ?_
      refine (yields_symbol comma).andThen fun _ => ?_
      refine (yields_columnType_iff.mpr ⟨_, _, rfl, typed, known⟩).andThen fun _ => ?_
      refine (yields_symbol comma').andThen fun _ => ?_
      exact Yields.of_ok

theorem describes_dataCell : Describes (.DataCell (rule 0)) (dataCell expr) where
  sound {tokens cell rest} reading := by
    unfold dataCell at reading
    split at reading
    · next ends =>
      obtain ⟨rfl, rfl⟩ := Yields.ok_iff.mp reading
      exact ⟨[], rfl, .absent ends⟩
    · next starts =>
      obtain ⟨value, _, _, first, reading⟩ := reading.bind
      obtain ⟨rfl, rfl⟩ := Yields.ok_iff.mp reading
      obtain ⟨used, rfl, read⟩ := (described 0).sound first
      refine ⟨used, rfl, .present ?_ read⟩
      simpa using starts
  complete {used cell rest} reading := by
    unfold dataCell
    cases reading with
    | absent ends =>
      rw [List.nil_append, if_pos ends]
      exact Yields.of_ok
    | present starts reading =>
      rw [if_neg (by simpa using starts)]
      exact ((described 0).complete reading).andThen fun _ => Yields.of_ok

theorem describes_dataRow (width : Nat) : Describes (.DataRow (rule 0) width) (dataRow expr width) where
  sound {tokens cells rest} reading := by
    obtain ⟨opening, _, _, first, reading⟩ := reading.bind
    obtain ⟨cells, _, _, second, reading⟩ := reading.bind
    obtain ⟨closing, _, _, third, reading⟩ := reading.bind
    obtain ⟨rfl, opens⟩ := yields_symbol_iff.mp first
    obtain ⟨used, rfl, items⟩ := (describes_separated (describes_dataCell described)).sound second
    obtain ⟨rfl, closes⟩ := yields_symbol_iff.mp third
    split at reading
    · exact absurd reading Yields.not_error
    · next even =>
      obtain ⟨rfl, rfl⟩ := Yields.ok_iff.mp reading
      refine ⟨opening :: (used ++ [closing]), by simp, .intro opens items closes ?_⟩
      exact Decidable.of_not_not even
  complete {used cells rest} reading := by
    cases reading with
    | intro opens items closes fits =>
      rw [List.cons_append, List.append_assoc, List.singleton_append]
      refine (yields_symbol opens).andThen fun _ => ?_
      refine ((describes_separated (describes_dataCell described)).complete items).andThen
        fun _ => ?_
      refine (yields_symbol closes).andThen fun _ => ?_
      rw [if_neg (not_not_intro fits)]
      exact Yields.of_ok

/-! ## The choice between the forms -/

theorem operand_of_called {name : String} {token : Token} {others : List Token} {value : Expr}
    (named : token.kind.functionName? = some name)
    (reading : Yields (called expr name token others) value rest) :
    ∃ used, token :: others = used ++ rest ∧ Rule.Operand rule used value (nextKind rest) := by
  obtain ⟨values, _, _, first, reading⟩ := reading.bind
  obtain ⟨rfl, rfl⟩ := Yields.ok_iff.mp reading
  obtain ⟨used, rfl, read⟩ := (describes_arguments described).sound first
  exact ⟨token :: used, rfl, .call named read⟩

theorem operand_of_named {name : String} {token : Token} {others : List Token} {value : Expr}
    (named : token.tableName? = some name)
    (alone : isBracketName (nextKind others) = false →
      token.kind.leaf? = some (.tableName name) ∧
        token.kind.standsAlone (nextKind others) = true)
    (reading : Yields (Production.named expr name token others) value rest) :
    ∃ used, token :: others = used ++ rest ∧ Rule.Operand rule used value (nextKind rest) := by
  obtain ⟨whole, _, _, first, reading⟩ := reading.bind
  obtain ⟨rfl, rfl⟩ := Yields.ok_iff.mp reading
  rcases yields_columnOf described first with
    ⟨noColumn, rfl, rfl⟩ | ⟨column, columnName, used, rfl, columnNamed, filters⟩
  · obtain ⟨stated, stands⟩ := alone noColumn
    exact ⟨[token], rfl, .leaf stated stands⟩
  · exact ⟨token :: column :: used, rfl, .column named columnNamed filters⟩

theorem operand_of_signed {operator : UnaryOperator} {token : Token} {others : List Token}
    {value : Expr} (sign : UnaryOperator.ofKind? token.kind = some operator)
    (reading : Yields (signed expr operator token others) value rest) :
    ∃ used, token :: others = used ++ rest ∧ Rule.Operand rule used value (nextKind rest) := by
  obtain ⟨operand, _, _, first, reading⟩ := reading.bind
  obtain ⟨rfl, rfl⟩ := Yields.ok_iff.mp reading
  obtain ⟨used, rfl, read⟩ := (described _).sound first
  exact ⟨token :: used, rfl, .unary sign read⟩

theorem operand_of_measured {name : String} {token : Token} {others : List Token} {value : Expr}
    (named : token.kind = .bracketName name)
    (reading : Yields (measured expr name token others) value rest) :
    ∃ used, token :: others = used ++ rest ∧ Rule.Operand rule used value (nextKind rest) := by
  obtain ⟨whole, _, _, first, reading⟩ := reading.bind
  obtain ⟨rfl, rfl⟩ := Yields.ok_iff.mp reading
  obtain ⟨used, rfl, filters⟩ := (describes_filtersOf described _).sound first
  exact ⟨token :: used, rfl, .measure named filters⟩

theorem operand_of_bindingsFrom {word : Token} {others : List Token} {value : Expr}
    (opens : word.kind = .keyword .var)
    (reading : Yields (bindingsFrom expr word.span.start (word :: others)) value rest) :
    ∃ used, word :: others = used ++ rest ∧ Rule.Operand rule used value (nextKind rest) := by
  obtain ⟨values, _, _, first, reading⟩ := reading.bind
  obtain ⟨result, _, _, second, reading⟩ := reading.bind
  obtain ⟨body, _, _, third, reading⟩ := reading.bind
  obtain ⟨rfl, rfl⟩ := Yields.ok_iff.mp reading
  obtain ⟨used, same, items⟩ := (describes_manyWhile (describes_binding described)).sound first
  obtain ⟨rfl, separates⟩ := yields_keyword_iff.mp second
  obtain ⟨later, rfl, read⟩ := (described 0).sound third
  cases used with
  | nil =>
    cases same
    rw [opens] at separates
    cases separates
  | cons head used =>
    obtain ⟨rfl, rfl⟩ := List.cons.inj same
    exact ⟨word :: (used ++ result :: later), by simp, .bindings opens items separates read⟩

omit described in
/-- One value in parentheses is a group, and several are a tuple. -/
theorem operand_of_separated {opening closing : Token} {used : List Token} {values : List Expr}
    {next : TokenKind} (opens : opening.kind = .symbol .leftParen)
    (items : Rule.Separated (rule 0) used values closing.kind)
    (closes : closing.kind = .symbol .rightParen) :
    Rule.Operand rule (opening :: (used ++ [closing]))
      (ofGroup (opening.span.cover closing.span) values) next := by
  cases items with
  | @intro used later value values _ reading others =>
    cases others with
    | done =>
      rw [List.append_nil]
      exact .group opens reading closes
    | more goesOn second others =>
      exact .tuple opens (.intro reading (.more goesOn second others)) closes

theorem operand_of_group {opening : Token} {others : List Token} {value : Expr}
    (reading : Yields (group expr (opening :: others)) value rest) :
    ∃ used, opening :: others = used ++ rest ∧ Rule.Operand rule used value (nextKind rest) := by
  obtain ⟨first, _, _, earlier, reading⟩ := reading.bind
  obtain ⟨values, _, _, between, reading⟩ := reading.bind
  obtain ⟨closing, _, _, later, reading⟩ := reading.bind
  obtain ⟨rfl, rfl⟩ := Yields.ok_iff.mp reading
  obtain ⟨same, opens⟩ := yields_symbol_iff.mp earlier
  obtain ⟨used, rfl, items⟩ := (describes_separated (described 0)).sound between
  obtain ⟨rfl, closes⟩ := yields_symbol_iff.mp later
  refine ⟨first :: (used ++ [closing]), by simp [same], ?_⟩
  exact operand_of_separated opens items closes

theorem operand_of_table {opening : Token} {others : List Token} {value : Expr}
    (reading : Yields (Production.table expr (opening :: others)) value rest) :
    ∃ used, opening :: others = used ++ rest ∧ Rule.Operand rule used value (nextKind rest) := by
  obtain ⟨first, _, _, earlier, reading⟩ := reading.bind
  obtain ⟨rows, _, _, between, reading⟩ := reading.bind
  obtain ⟨closing, _, _, later, reading⟩ := reading.bind
  obtain ⟨rfl, rfl⟩ := Yields.ok_iff.mp reading
  obtain ⟨same, opens⟩ := yields_symbol_iff.mp earlier
  obtain ⟨used, rfl, items⟩ := (describes_tableRows described).sound between
  obtain ⟨rfl, closes⟩ := yields_symbol_iff.mp later
  exact ⟨first :: (used ++ [closing]), by simp [same], .table opens items closes⟩

theorem operand_of_dataTable {word : Token} {others : List Token} {value : Expr}
    (reading : Yields (dataTable expr (word :: others)) value rest) :
    ∃ used, word :: others = used ++ rest ∧ Rule.Operand rule used value (nextKind rest) := by
  obtain ⟨first, _, _, step₁, reading⟩ := reading.bind
  obtain ⟨outer, _, _, step₂, reading⟩ := reading.bind
  obtain ⟨columns, _, _, step₃, reading⟩ := reading.bind
  obtain ⟨same, named⟩ := yields_keyword_iff.mp step₁
  obtain ⟨rfl, opens⟩ := yields_symbol_iff.mp step₂
  obtain ⟨used, rfl, heads⟩ := (describes_manyWhile describes_dataColumn).sound step₃
  split at reading
  · exact absurd reading Yields.not_error
  · next some =>
    obtain ⟨opening, _, _, step₄, reading⟩ := reading.bind
    obtain ⟨rows, _, _, step₅, reading⟩ := reading.bind
    obtain ⟨closing, _, _, step₆, reading⟩ := reading.bind
    obtain ⟨last, _, _, step₇, reading⟩ := reading.bind
    obtain ⟨rfl, rfl⟩ := Yields.ok_iff.mp reading
    obtain ⟨rfl, opensRows⟩ := yields_symbol_iff.mp step₄
    obtain ⟨later, rfl, items⟩ :=
      (describes_separatedUnless (describes_dataRow described _)).sound step₅
    obtain ⟨rfl, closesRows⟩ := yields_symbol_iff.mp step₆
    obtain ⟨rfl, closes⟩ := yields_symbol_iff.mp step₇
    refine ⟨first :: outer :: (used ++ opening :: (later ++ [closing, last])), by simp [same],
      .dataTable named opens heads ?_ opensRows items closesRows closes⟩
    simpa using some

omit described in
theorem operand_of_leaf {form : Form Expr} {token : Token} {others : List Token} {value : Expr}
    (stated : token.kind.leaf? = some form)
    (alone : token.kind.standsAlone (nextKind others) = true)
    (reading : Yields (leaf form token others) value rest) :
    ∃ used, token :: others = used ++ rest ∧ Rule.Operand rule used value (nextKind rest) := by
  obtain ⟨rfl, rfl⟩ := Yields.ok_iff.mp reading
  exact ⟨[token], rfl, .leaf stated alone⟩

theorem operand_of_keyword {word : Keyword} {token : Token} {others : List Token} {value : Expr}
    (kind : token.kind = .keyword word)
    (reading : Yields (keywordOperand expr word token others) value rest) :
    ∃ used, token :: others = used ++ rest ∧ Rule.Operand rule used value (nextKind rest) := by
  unfold keywordOperand at reading
  split at reading
  · next isTable =>
    obtain ⟨bracket, notNot⟩ := Bool.and_eq_true_iff.mp isTable
    have named : token.tableName? = some token.spelling := by
      unfold Token.tableName?
      rw [kind]
      cases word <;> first | rfl | cases notNot
    refine operand_of_named described named (fun alone => ?_) reading
    rw [bracket] at alone
    cases alone
  · next noTable =>
    -- A keyword that is an operand by itself has been told apart from a call already.
    have alone (wordNotNot : word ≠ .logicalNot)
        (noCall : ¬isSymbol .leftParen (nextKind others) = true) :
        token.kind.standsAlone (nextKind others) = true := by
      simp_all [TokenKind.standsAlone]
    cases word with
    | var => exact operand_of_bindingsFrom described kind reading
    | logicalNot => exact operand_of_signed described (by rw [kind]; rfl) reading
    | dataTable => exact operand_of_dataTable described reading
    | trueValue | falseValue | blank =>
      dsimp only at reading
      split at reading
      · exact operand_of_called described (by rw [kind]; rfl) reading
      · next noCall =>
        exact operand_of_leaf (by rw [kind]; rfl) (alone (by decide) noCall) reading
    | logicalAnd | logicalOr =>
      dsimp only at reading
      split at reading
      · exact operand_of_called described (by rw [kind]; rfl) reading
      · exact absurd reading Yields.not_error
    | _ => exact absurd reading Yields.not_error

/-! ## The way back -/

omit described in
theorem operandOf_keyword {word : Keyword} {token : Token} (kind : token.kind = .keyword word) :
    operandOf expr (token :: tokens) = keywordOperand expr word token tokens := by
  simp only [operandOf, kind]

omit described in
/-- Without a column behind it, what follows a name is nothing. -/
theorem yields_named_of_not_bracketName {name : String} {token : Token}
    (alone : isBracketName (nextKind rest) = false) :
    Yields (Production.named expr name token rest) (.node (.tableName name) token.span) rest :=
  (yields_columnOf_of_not_bracketName alone).andThen fun _ => Yields.of_ok

omit described in
theorem yields_operandOf_of_leaf {token : Token} {form : Form Expr}
    (stated : token.kind.leaf? = some form)
    (alone : token.kind.standsAlone (nextKind rest) = true) :
    Yields (operandOf expr (token :: rest)) (.node form token.span) rest := by
  cases kind : token.kind with
  | number | text =>
    rw [kind] at stated
    cases stated
    simp only [operandOf, kind]
    exact Yields.of_ok
  | identifier name =>
    rw [kind] at stated alone
    cases stated
    obtain ⟨noColumn, noCall⟩ : isBracketName (nextKind rest) = false ∧
        isSymbol .leftParen (nextKind rest) = false := by
      simpa [TokenKind.standsAlone] using alone
    simp only [operandOf, kind, noCall, Bool.false_eq_true, if_false]
    exact yields_named_of_not_bracketName noColumn
  | quotedName name =>
    rw [kind] at stated alone
    cases stated
    simp only [operandOf, kind]
    exact yields_named_of_not_bracketName (by simpa [TokenKind.standsAlone] using alone)
  | keyword word =>
    rw [operandOf_keyword kind, keywordOperand]
    rw [kind] at stated alone
    obtain ⟨noColumn, noCall⟩ : isBracketName (nextKind rest) = false ∧
        isSymbol .leftParen (nextKind rest) = false := by
      simpa [TokenKind.standsAlone] using alone
    rw [noColumn, noCall, Bool.false_and, if_neg Bool.false_ne_true]
    cases word with
    | trueValue | falseValue | blank =>
      cases stated
      exact Yields.of_ok
    | _ => cases stated
  | _ =>
    rw [kind] at stated
    cases stated

theorem yields_operandOf_of_column {table column : Token} {tableName columnName : String}
    {used : List Token} {value : Expr} (tableNamed : table.tableName? = some tableName)
    (columnNamed : column.kind = .bracketName columnName)
    (filters : Rule.Filters (rule 0)
      (.node (.column tableName columnName) (table.span.cover column.span)) used value
      (nextKind rest)) :
    Yields (operandOf expr (table :: column :: (used ++ rest))) value rest := by
  have reading : Yields (Production.named expr tableName table (column :: (used ++ rest)))
      value rest :=
    (yields_columnOf_of_bracketName described columnNamed filters).andThen fun _ => Yields.of_ok
  unfold Token.tableName? at tableNamed
  cases kind : table.kind with
  | identifier name =>
    simp only [kind, Option.some.injEq] at tableNamed
    have noCall : isSymbol .leftParen column.kind = false := by
      rw [columnNamed]
      rfl
    simp only [operandOf, kind, nextKind_cons, noCall, Bool.false_eq_true, if_false, tableNamed]
    exact reading
  | quotedName name =>
    simp only [kind, Option.some.injEq] at tableNamed
    simpa only [operandOf, kind, tableNamed] using reading
  | keyword word =>
    rw [operandOf_keyword kind, keywordOperand, nextKind_cons, columnNamed]
    cases word with
    | logicalNot =>
      rw [kind] at tableNamed
      cases tableNamed
    | _ =>
      rw [kind] at tableNamed
      cases tableNamed
      exact reading
  | _ =>
    rw [kind] at tableNamed
    cases tableNamed

omit described in
/-- A function with a parenthesis behind it. -/
theorem operandOf_of_call {token : Token} {name : String}
    (named : token.kind.functionName? = some name)
    (opens : nextKind tokens = .symbol .leftParen) :
    operandOf expr (token :: tokens) = called expr name token tokens := by
  cases kind : token.kind with
  | identifier word =>
    rw [kind] at named
    cases named
    have isCall : isSymbol .leftParen (nextKind tokens) = true := by
      rw [opens]
      rfl
    simp only [operandOf, kind, isCall, if_true]
  | keyword word =>
    rw [operandOf_keyword kind, keywordOperand, opens]
    rw [kind] at named
    cases word with
    | trueValue | falseValue | blank | logicalAnd | logicalOr =>
      cases named
      rfl
    | _ => cases named
  | _ =>
    rw [kind] at named
    cases named

theorem yields_operandOf_of_call {token : Token} {name : String} {used : List Token}
    {values : List Expr} {stop : Nat} (named : token.kind.functionName? = some name)
    (arguments : Rule.Arguments (rule 0) used (values, stop) (nextKind rest)) :
    Yields (operandOf expr (token :: (used ++ rest)))
      (.node (.call name values) ⟨token.span.start, stop⟩) rest := by
  have opens : nextKind (used ++ rest) = .symbol .leftParen := by
    cases arguments with
    | intro opens => exact opens
  rw [operandOf_of_call named opens]
  exact ((describes_arguments described).complete arguments).andThen fun _ => Yields.of_ok

omit described in
/-- An operator in front of an operand. -/
theorem operandOf_of_unary {token : Token} {operator : UnaryOperator}
    (sign : UnaryOperator.ofKind? token.kind = some operator) :
    operandOf expr (token :: tokens) = signed expr operator token tokens := by
  cases kind : token.kind with
  | symbol symbol =>
    rw [kind] at sign
    cases symbol with
    | minus | plus =>
      cases sign
      simp only [operandOf, kind]
    | _ => cases sign
  | keyword word =>
    rw [operandOf_keyword kind, keywordOperand]
    rw [kind] at sign
    cases word with
    | logicalNot =>
      cases sign
      rw [if_neg (by simp)]
    | _ => cases sign
  | _ =>
    rw [kind] at sign
    cases sign

theorem yields_operandOf_of_unary {token : Token} {operator : UnaryOperator} {used : List Token}
    {value : Expr} (sign : UnaryOperator.ofKind? token.kind = some operator)
    (operand : rule operator.operandLevel used value (nextKind rest)) :
    Yields (operandOf expr (token :: (used ++ rest)))
      (.node (.unary operator value) (token.span.cover value.span)) rest := by
  rw [operandOf_of_unary sign]
  exact ((described _).complete operand).andThen fun _ => Yields.of_ok

omit described in
/-- Behind the first word of a block of variables stands a name. -/
theorem not_bracketName_of_bindings {word : Token} {used : List Token}
    {values : List (String × Expr)} {next : TokenKind}
    (items : Rule.Repeated (isKeyword .var) (Rule.Binding (rule 0)) (word :: used) values next)
    (rest : List Token) : isBracketName (nextKind (used ++ rest)) = false := by
  generalize same : word :: used = all at items
  cases items with
  | done => cases same
  | more goesOn reading others =>
    cases reading with
    | intro opens named sign reading =>
      obtain ⟨rfl, rfl⟩ := List.cons.inj same
      change isBracketName (Token.kind _) = false
      rw [named]
      rfl

theorem yields_operandOf_of_bindings {word result : Token} {used later : List Token}
    {values : List (String × Expr)} {body : Expr} (opens : word.kind = .keyword .var)
    (items : Rule.Repeated (isKeyword .var) (Rule.Binding (rule 0)) (word :: used) values
      result.kind)
    (separates : result.kind = .keyword .result)
    (reading : rule 0 later body (nextKind rest)) :
    Yields (operandOf expr (word :: (used ++ result :: later) ++ rest))
      (.node (.bindings values body) ⟨word.span.start, body.span.stop⟩) rest := by
  rw [List.cons_append, List.append_assoc, operandOf_keyword opens, keywordOperand,
    not_bracketName_of_bindings items, Bool.false_and, if_neg Bool.false_ne_true,
    List.cons_append]
  have values : Yields (manyWhile (isKeyword .var) (binding expr)
      (word :: used ++ result :: (later ++ rest))) values (result :: (later ++ rest)) :=
    (describes_manyWhile (describes_binding described)).complete items
  refine values.andThen fun _ => ?_
  refine (yields_keyword separates).andThen fun _ => ?_
  refine ((described 0).complete reading).andThen fun _ => ?_
  exact Yields.of_ok

theorem yields_operandOf_of_dataTable {word outer opening closing last : Token}
    {used later : List Token} {columns : List Column} {rows : List (List (Option Expr))}
    (named : word.kind = .keyword .dataTable) (opens : outer.kind = .symbol .leftParen)
    (heads : Rule.Repeated (!isSymbol .leftBrace ·) .DataColumn used columns opening.kind)
    (some : columns ≠ []) (opensRows : opening.kind = .symbol .leftBrace)
    (items : Rule.SeparatedUnless .rightBrace (.DataRow (rule 0) columns.length) later rows
      closing.kind)
    (closesRows : closing.kind = .symbol .rightBrace)
    (closes : last.kind = .symbol .rightParen) :
    Yields (operandOf expr (word :: outer :: (used ++ opening :: (later ++ [closing, last])) ++ rest))
      (.node (.dataTable columns rows) (word.span.cover last.span)) rest := by
  have noColumn : isBracketName outer.kind = false := by
    rw [opens]
    rfl
  rw [List.cons_append, List.cons_append, List.append_assoc, List.cons_append, List.append_assoc,
    operandOf_keyword named, keywordOperand, nextKind_cons, noColumn, Bool.false_and,
    if_neg Bool.false_ne_true]
  refine (yields_keyword named).andThen fun _ => ?_
  refine (yields_symbol opens).andThen fun _ => ?_
  refine ((describes_manyWhile describes_dataColumn).complete heads).andThen fun _ => ?_
  dsimp only
  rw [if_neg (by simpa using some)]
  refine (yields_symbol opensRows).andThen fun _ => ?_
  refine ((describes_separatedUnless (describes_dataRow described _)).complete items).andThen
    fun _ => ?_
  refine (yields_symbol closesRows).andThen fun _ => ?_
  refine (yields_symbol closes).andThen fun _ => ?_
  exact Yields.of_ok

theorem describes_operandOf : Describes (.Operand rule) (operandOf expr) where
  sound {tokens value rest} reading := by
    cases tokens with
    | nil => exact absurd reading Yields.not_error
    | cons token others =>
      simp only [operandOf] at reading
      split at reading
      · next kind => exact operand_of_keyword described kind reading
      · next kind => exact operand_of_signed described (by rw [kind]; rfl) reading
      · next kind => exact operand_of_signed described (by rw [kind]; rfl) reading
      · next kind => exact operand_of_leaf (by rw [kind]; rfl) (by rw [kind]; rfl) reading
      · next kind => exact operand_of_leaf (by rw [kind]; rfl) (by rw [kind]; rfl) reading
      · next name kind =>
        split at reading
        · exact operand_of_called described (by rw [kind]; rfl) reading
        · next noCall =>
          refine operand_of_named described ?_ (fun alone => ⟨?_, ?_⟩) reading
          · simp [Token.tableName?, kind]
          · simp [TokenKind.leaf?, kind]
          · simp_all [TokenKind.standsAlone]
      · next name kind =>
        refine operand_of_named described ?_ (fun alone => ⟨?_, ?_⟩) reading
        · simp [Token.tableName?, kind]
        · simp [TokenKind.leaf?, kind]
        · simp [TokenKind.standsAlone, kind, alone]
      · next kind => exact operand_of_measured described kind reading
      · exact operand_of_group described reading
      · exact operand_of_table described reading
      · exact absurd reading Yields.not_error
  complete {used value rest} reading := by
    cases reading with
    | leaf stated alone => exact yields_operandOf_of_leaf stated alone
    | measure named filters =>
      simp only [List.cons_append, operandOf, named]
      exact ((describes_filtersOf described _).complete filters).andThen fun _ => Yields.of_ok
    | column tableNamed columnNamed filters =>
      exact yields_operandOf_of_column described tableNamed columnNamed filters
    | call named arguments => exact yields_operandOf_of_call described named arguments
    | unary sign operand => exact yields_operandOf_of_unary described sign operand
    | bindings opens items separates reading =>
      exact yields_operandOf_of_bindings described opens items separates reading
    | @group opening closing used value _ opens reading closes =>
      have items : Rule.Separated (rule 0) used [value] closing.kind :=
        .single reading (by rw [closes]; rfl)
      simp only [List.cons_append, operandOf, opens]
      rw [List.append_assoc, List.singleton_append]
      refine (yields_symbol opens).andThen fun _ => ?_
      refine ((describes_separated (described 0)).complete items).andThen fun _ => ?_
      refine (yields_symbol closes).andThen fun _ => ?_
      exact Yields.of_ok
    | tuple opens items closes =>
      simp only [List.cons_append, operandOf, opens]
      rw [List.append_assoc, List.singleton_append]
      refine (yields_symbol opens).andThen fun _ => ?_
      refine ((describes_separated (described 0)).complete items).andThen fun _ => ?_
      refine (yields_symbol closes).andThen fun _ => ?_
      exact Yields.of_ok
    | table opens items closes =>
      simp only [List.cons_append, operandOf, opens]
      rw [List.append_assoc, List.singleton_append]
      refine (yields_symbol opens).andThen fun _ => ?_
      refine ((describes_tableRows described).complete items).andThen fun _ => ?_
      refine (yields_symbol closes).andThen fun _ => ?_
      exact Yields.of_ok
    | dataTable named opens heads some opensRows items closesRows closes =>
      exact yields_operandOf_of_dataTable described named opens heads some opensRows items
        closesRows closes

end Parts

end DaxScript
