import DaxScript.Proofs.Grammar.Printing
import DaxScript.Proofs.Grammar.ExpressionRule

/-!
# What an expression says, word by word

An expression says words in the order in which they are written: literals, names, columns of data
and operators, each in its place (`Expr.words`).  Between them stand the marks of blocks of
variables and of tables of data, which the tree shows by its form.

The tokens that are read as an expression say just these words, one each, once the signs that
enclose and separate are left out (`Rule.ExpressionOfLevel.tells`).  There is one lemma for each
rule, as nothing else is known of the rules for the parts.
-/

set_option autoImplicit false

namespace DaxScript

open Production

/-! ## Words -/

/-- A mark of a form, which says nothing that the form itself does not. -/
inductive Mark where
  /-- In front of a variable that is given a value. -/
  | var
  /-- Between the variable and its value. -/
  | equals
  /-- Between the variables and the body. -/
  | result
  /-- In front of the columns and rows of data. -/
  | dataTable
  deriving DecidableEq

/-- How a mark is written. -/
def Mark.kind : Mark → TokenKind
  | var => .keyword .var
  | equals => .symbol .equal
  | result => .keyword .result
  | dataTable => .keyword .dataTable

/-- What a single token says within an expression. -/
inductive Word where
  | number (value : Binary64)
  | text (content : String)
  | boolean (value : Bool)
  | blank
  /-- A table, or a variable that is used. -/
  | tableName (name : String)
  | measure (name : String)
  | column (name : String)
  | function (name : String)
  /-- A variable that is given a value. -/
  | variableName (name : String)
  /-- The name of a column of data. -/
  | heading (name : String)
  | columnType (type : ColumnType)
  | unary (operator : UnaryOperator)
  | binary (operator : BinaryOperator)
  | mark (mark : Mark)
  deriving DecidableEq

/-- Whether a word is more than a mark. -/
def Word.isPayload : Word → Bool
  | mark _ => false
  | _ => true

/-- How an operator in front of its operand is written. -/
def UnaryOperator.kind : UnaryOperator → TokenKind
  | negate => .symbol .minus
  | plus => .symbol .plus
  | logicalNot => .keyword .logicalNot

/-- The ways to write an operator between its operands. -/
def BinaryOperator.kinds : BinaryOperator → List TokenKind
  | add => [.symbol .plus]
  | subtract => [.symbol .minus]
  | multiply => [.symbol .star]
  | divide => [.symbol .slash]
  | concat => [.symbol .ampersand]
  | equal => [.symbol .equal]
  | notEqual => [.symbol .notEqual]
  | less => [.symbol .less]
  | lessEqual => [.symbol .lessEqual]
  | greater => [.symbol .greater]
  | greaterEqual => [.symbol .greaterEqual]
  | within => [.keyword .within]
  | logicalAnd => [.symbol .doubleAmpersand, .keyword .logicalAnd]
  | logicalOr => [.symbol .doubleBar, .keyword .logicalOr]

/-- The word for the type of a column of data. -/
def ColumnType.word : ColumnType → String
  | string => "STRING"
  | integer => "INTEGER"
  | double => "DOUBLE"
  | currency => "CURRENCY"
  | dateTime => "DATETIME"
  | boolean => "BOOLEAN"

theorem UnaryOperator.ofKind?_eq_some_iff {kind : TokenKind} {operator : UnaryOperator} :
    ofKind? kind = some operator ↔ kind = operator.kind := by
  constructor
  · intro sign
    unfold ofKind? at sign
    split at sign <;> cases sign <;> rfl
  · rintro rfl
    cases operator <;> rfl

theorem BinaryOperator.ofKind?_eq_some_iff {kind : TokenKind} {operator : BinaryOperator} :
    ofKind? kind = some operator ↔ kind ∈ operator.kinds := by
  constructor
  · intro sign
    unfold ofKind? at sign
    split at sign <;> cases sign <;> simp [kinds]
  · intro member
    cases operator <;> simp only [kinds, List.mem_cons, List.not_mem_nil, or_false] at member
    case logicalAnd | logicalOr => rcases member with rfl | rfl <;> rfl
    all_goals subst member; rfl

theorem ColumnType.same_word_of_ofWord? {spelling : String} {type : ColumnType}
    (known : ofWord? spelling = some type) : sameIgnoringCase type.word spelling = true := by
  have named := List.find?_some known
  cases type <;> exact named

/-- What a token says.  Keywords, the words for the types of columns and the spellings of an
operator are told apart no further than the grammar does. -/
def Token.Means (token : Token) : Word → Prop
  | .number value => token.kind = .number value
  | .text content => token.kind = .text content
  | .boolean true => token.kind = .keyword .trueValue
  | .boolean false => token.kind = .keyword .falseValue
  | .blank => token.kind = .keyword .blank
  | .tableName name => token.tableName? = some name
  | .measure name => token.kind = .bracketName name
  | .column name => token.kind = .bracketName name
  | .function name => token.kind.functionName? = some name
  | .variableName name => token.kind = .identifier name
  | .heading name => token.kind = .text name
  | .columnType type =>
    ∃ spelling, token.kind = .identifier spelling ∧ sameIgnoringCase type.word spelling = true
  | .unary operator => token.kind = operator.kind
  | .binary operator => token.kind ∈ operator.kinds
  | .mark mark => token.kind = mark.kind

/-- Whether a token is one of the signs that enclose and separate. -/
def TokenKind.encloses : TokenKind → Bool
  | symbol .leftParen | symbol .rightParen => true
  | symbol .leftBrace | symbol .rightBrace => true
  | symbol .comma => true
  | _ => false

/-- The tokens that say something. -/
def spoken (tokens : List Token) : List Token :=
  tokens.filter (!·.kind.encloses)

/-- A sign that is no operator says nothing. -/
theorem Token.Means.ne_symbol {token : Token} {word : Word} (means : token.Means word)
    {sign : Symbol} (noUnary : UnaryOperator.ofKind? (.symbol sign) = none)
    (noBinary : BinaryOperator.ofKind? (.symbol sign) = none) : token.kind ≠ .symbol sign := by
  intro kind
  cases word with
  | boolean value => cases value <;> simp [Means, kind] at means
  | mark mark =>
    have same : mark.kind = .symbol sign := means.symm.trans kind
    cases mark with
    | equals =>
      cases same
      cases noBinary
    | _ => cases same
  | unary operator =>
    have sign : UnaryOperator.ofKind? token.kind = some operator :=
      UnaryOperator.ofKind?_eq_some_iff.mpr means
    simp [kind, noUnary] at sign
  | binary operator =>
    have joins : BinaryOperator.ofKind? token.kind = some operator :=
      BinaryOperator.ofKind?_eq_some_iff.mpr means
    simp [kind, noBinary] at joins
  | _ => simp [Means, kind, tableName?, TokenKind.functionName?] at means

/-- No sign that encloses says anything. -/
theorem Token.Means.encloses {token : Token} {word : Word} (means : token.Means word) :
    token.kind.encloses = false := by
  cases encloses : token.kind.encloses with
  | false => rfl
  | true =>
    unfold TokenKind.encloses at encloses
    split at encloses
    all_goals cases encloses
    all_goals next kind => exact absurd kind (means.ne_symbol rfl rfl)

/-! ## The words of an expression -/

/-- What a column of data says. -/
def Column.words (column : Column) : List Word :=
  [.heading column.name, .columnType column.type]

/-- What a variable says that is given a value. -/
def bindingWords (binding : String × List Word) : List Word :=
  .mark .var :: .variableName binding.1 :: .mark .equals :: binding.2

/-- What a node says, when its children say something. -/
def Form.words : Form (List Word) → List Word
  | number value => [.number value]
  | text content => [.text content]
  | boolean value => [.boolean value]
  | blank => [.blank]
  | tableName name => [.tableName name]
  | measure name => [.measure name]
  | column owner name => [.tableName owner, .column name]
  | tuple values => values.flatten
  | table rows => rows.flatten.flatten
  | call name arguments => .function name :: arguments.flatten
  | calculate target filters => target ++ filters.flatten
  | bindings values body => values.flatMap bindingWords ++ .mark .result :: body
  | dataTable columns rows =>
    .mark .dataTable ::
      (columns.flatMap Column.words ++ rows.flatMap (·.flatMap fun cell => cell.getD []))
  | unary operator operand => .unary operator :: operand
  | binary operator left right => left ++ .binary operator :: right

namespace Expr

/-- What an expression says, in the order in which it is written. -/
def words : Expr → List Word :=
  fold Form.words

/-- What an expression says, without the marks. -/
def payloads (expr : Expr) : List Word :=
  expr.words.filter Word.isPayload

theorem words_node (form : Form Expr) (span : Span) :
    (node form span).words = (form.map words).words :=
  fold_node _ form span

theorem words_withSpan (expr : Expr) (span : Span) : (expr.withSpan span).words = expr.words := by
  obtain ⟨form, own⟩ := expr
  rw [withSpan, words_node, words_node, form_node]

end Expr

/-! ## Tokens that tell words -/

/-- Some tokens say some words, one each, but for the signs that enclose and separate. -/
def Tells (tokens : List Token) (words : List Word) : Prop :=
  List.Forall₂ Token.Means (spoken tokens) words

namespace Tells

variable {tokens : List Token} {words : List Word} {token : Token}

theorem nil : Tells [] [] :=
  List.Forall₂.nil

theorem append {more : List Token} {others : List Word} (first : Tells tokens words)
    (second : Tells more others) : Tells (tokens ++ more) (words ++ others) := by
  rw [Tells, spoken, List.filter_append]
  exact List.rel_append first second

theorem cons {word : Word} (means : token.Means word) (others : Tells tokens words) :
    Tells (token :: tokens) (word :: words) := by
  rw [Tells, spoken, List.filter_cons_of_pos (by simp [means.encloses])]
  exact .cons means others

/-- There is no point among tokens that tell words. -/
theorem ne_dot (tells : Tells tokens words) : ∀ token ∈ tokens, token.kind ≠ .symbol .dot := by
  intro token member kind
  have isSpoken : token ∈ spoken tokens := List.mem_filter.mpr ⟨member, by rw [kind]; rfl⟩
  obtain ⟨place, bound, same⟩ := List.mem_iff_getElem.mp isSpoken
  have means := List.Forall₂.get tells bound (tells.length_eq ▸ bound)
  simp only [List.get_eq_getElem, same] at means
  exact means.ne_symbol rfl rfl kind

theorem single {word : Word} (means : token.Means word) : Tells [token] [word] :=
  .cons means .nil

theorem behind (encloses : token.kind.encloses = true) (tells : Tells tokens words) :
    Tells (token :: tokens) words := by
  rw [Tells, spoken, List.filter_cons_of_neg (by simp [encloses])]
  exact tells

theorem inFront (encloses : token.kind.encloses = true) (tells : Tells tokens words) :
    Tells (tokens ++ [token]) words := by
  have whole := tells.append (behind encloses nil)
  rwa [List.append_nil] at whole

/-- A sign on either side. -/
theorem between {opening closing : Token} {first last : Symbol}
    (opens : opening.kind = .symbol first) (closes : closing.kind = .symbol last)
    (enclose : (TokenKind.symbol first).encloses = true ∧ (TokenKind.symbol last).encloses = true)
    (tells : Tells tokens words) : Tells (opening :: (tokens ++ [closing])) words :=
  .behind (opens ▸ enclose.1) (.inFront (closes ▸ enclose.2) tells)

end Tells

namespace Rule

/-- The tokens that a rule reads tell the words of what it reads. -/
def TellsWords {α : Type} (words : α → List Word) (rule : Rule α) : Prop :=
  ∀ ⦃used : List Token⦄ ⦃value : α⦄ ⦃next : TokenKind⦄, rule used value next →
    Tells used (words value)

section Repetition

variable {α : Type} {words : α → List Word} {item : Rule α}

theorem TellsWords.afterComma (tells : TellsWords words item) :
    TellsWords words (AfterComma item) := by
  intro used value next reading
  cases reading with
  | intro sign reading => exact .behind (sign ▸ rfl) (tells reading)

theorem TellsWords.repeated (tells : TellsWords words item) (continues : TokenKind → Bool) :
    TellsWords (·.flatMap words) (Repeated continues item) := by
  intro used values next reading
  induction reading with
  | done => exact .nil
  | more _ reading _ ih =>
    exact (tells reading).append ih

theorem TellsWords.separated (tells : TellsWords words item) :
    TellsWords (·.flatMap words) (Separated item) := by
  intro used values next reading
  cases reading with
  | intro reading others =>
    exact (tells reading).append (tells.afterComma.repeated _ others)

theorem TellsWords.separatedUnless (tells : TellsWords words item) (close : Symbol) :
    TellsWords (·.flatMap words) (SeparatedUnless close item) := by
  intro used values next reading
  cases reading with
  | none => exact .nil
  | some _ items => exact tells.separated items

end Repetition

/-! ## Parts of operands -/

section Parts

/-- A row says what its element says. -/
theorem words_of_row? {value : Expr} {row : List Expr} (isRow : value.row? = some row) :
    row.flatMap Expr.words = value.words := by
  obtain ⟨form, span⟩ := value
  cases form with
  | tuple values =>
    obtain rfl := Option.some.inj isRow
    rw [Expr.words_node, Form.map, Form.words, List.flatMap_def]
  | table => cases isRow
  | _ =>
    obtain rfl := Option.some.inj isRow
    exact List.append_nil _

variable {expr : Rule Expr} (tells : TellsWords Expr.words expr)
include tells

theorem tells_arguments : TellsWords (·.1.flatMap Expr.words) (Arguments expr) := by
  intro used values next reading
  cases reading with
  | intro opens items closes =>
    exact .between opens closes ⟨rfl, rfl⟩ (tells.separatedUnless _ items)

/-- Filters say something behind the measure or the column that they filter. -/
theorem tells_filters {target value : Expr} {before used : List Token} {next : TokenKind}
    (named : Tells before target.words) (reading : Filters expr target used value next) :
    Tells (before ++ used) value.words := by
  cases reading with
  | none =>
    rw [List.append_nil]
    exact named
  | @some used values stop _ filters =>
    rw [Expr.words_node, Form.map, Form.words, ← List.flatMap_def]
    exact named.append (tells_arguments tells filters)

theorem tells_binding :
    TellsWords (fun binding => bindingWords (binding.1, binding.2.words)) (Binding expr) := by
  intro used binding next reading
  cases reading with
  | @intro word symbol equals name used value _ opens named sign reading =>
    have wordMeans : word.Means (.mark .var) := opens
    have symbolMeans : symbol.Means (.variableName name) := named
    have equalsMeans : equals.Means (.mark .equals) := sign
    exact .cons wordMeans (.cons symbolMeans (.cons equalsMeans (tells reading)))

theorem tells_tableRow (width? : Option Nat) :
    TellsWords (·.flatMap Expr.words) (TableRow expr width?) := by
  intro used row next reading
  cases reading with
  | intro reading isRow =>
    change Tells used (row.flatMap Expr.words)
    rw [words_of_row? isRow]
    exact tells reading

theorem tells_tableRows :
    TellsWords (·.flatMap (·.flatMap Expr.words)) (TableRows expr) := by
  intro used rows next reading
  cases reading with
  | none => exact .nil
  | some _ first others =>
    exact (tells_tableRow tells _ first).append
      ((tells_tableRow tells _).afterComma.repeated _ others)

theorem tells_dataCell :
    TellsWords (fun cell => (cell.map Expr.words).getD []) (DataCell expr) := by
  intro used cell next reading
  cases reading with
  | absent => exact .nil
  | present _ reading => exact tells reading

theorem tells_dataRow (width : Nat) :
    TellsWords (·.flatMap fun cell => (cell.map Expr.words).getD []) (DataRow expr width) := by
  intro used row next reading
  cases reading with
  | intro opens items closes =>
    exact .between opens closes ⟨rfl, rfl⟩ ((tells_dataCell tells).separated items)

end Parts

theorem tells_dataColumn : TellsWords Column.words DataColumn := by
  intro used column next reading
  cases reading with
  | intro named comma typed known comma' =>
    have means : Token.Means _ (.columnType _) :=
      ⟨_, typed, ColumnType.same_word_of_ofWord? known⟩
    exact .cons named (.behind (comma ▸ rfl) (.cons means (.behind (comma' ▸ rfl) .nil)))

/-! ## Operands -/

theorem tells_leaf {token : Token} {form : Form Expr} (stated : token.kind.leaf? = some form) :
    Tells [token] (Expr.node form token.span).words := by
  rw [Expr.words_node]
  unfold TokenKind.leaf? at stated
  split at stated
  all_goals cases stated
  case h_3 name kind =>
    exact .single (show token.tableName? = some name by rw [Token.tableName?, kind])
  case h_4 name kind =>
    exact .single (show token.tableName? = some name by rw [Token.tableName?, kind])
  all_goals next kind => exact .single kind

/-- **The tokens of an operand say what it says**, if those of expressions do. -/
theorem Operand.tells {expr : Nat → Rule Expr}
    (tells : ∀ level, TellsWords Expr.words (expr level)) :
    TellsWords Expr.words (Operand expr) := by
  intro used value next reading
  cases reading with
  | leaf stated => exact tells_leaf stated
  | @measure token name used value _ named filters =>
    have means : token.Means (.measure name) := named
    have alone : Tells [token] (Expr.node (.measure name) token.span).words := by
      rw [Expr.words_node]
      exact .single means
    exact tells_filters (tells 0) alone filters
  | @column table column tableName columnName used value _ tableNamed columnNamed filters =>
    have tableMeans : table.Means (.tableName tableName) := tableNamed
    have columnMeans : column.Means (.column columnName) := columnNamed
    have alone : Tells [table, column]
        (Expr.node (.column tableName columnName) (table.span.cover column.span)).words := by
      rw [Expr.words_node]
      exact .cons tableMeans (.single columnMeans)
    exact tells_filters (tells 0) alone filters
  | @call token name used values stop _ named arguments =>
    have means : token.Means (.function name) := named
    rw [Expr.words_node, Form.map, Form.words, ← List.flatMap_def]
    exact .cons means (tells_arguments (tells 0) arguments)
  | @unary token operator used value _ sign operand =>
    have means : token.Means (.unary operator) := UnaryOperator.ofKind?_eq_some_iff.mp sign
    rw [Expr.words_node]
    exact .cons means (tells _ operand)
  | @bindings word result used later values body _ opens items separates reading =>
    have means : result.Means (.mark .result) := separates
    have inFront := (tells_binding (tells 0)).repeated _ items
    have whole := inFront.append (.cons means (tells 0 reading))
    rw [Expr.words_node, Form.map, Form.words, List.flatMap_map]
    exact whole
  | @group opening closing used value _ opens reading closes =>
    rw [Expr.words_withSpan]
    exact .between opens closes ⟨rfl, rfl⟩ (tells 0 reading)
  | @tuple opening closing used first second others _ opens items closes =>
    rw [Expr.words_node, Form.map, Form.words, ← List.flatMap_def]
    exact .between opens closes ⟨rfl, rfl⟩ ((tells 0).separated items)
  | @table opening closing used rows _ opens items closes =>
    have inside := tells_tableRows (tells 0) items
    have same : (rows.map (·.map Expr.words)).flatten.flatten =
        rows.flatMap (·.flatMap Expr.words) := by
      simp only [List.flatMap_def, List.flatten_flatten, List.map_map, Function.comp_def]
    rw [Expr.words_node, Form.map, Form.words, same]
    exact .between opens closes ⟨rfl, rfl⟩ inside
  | @dataTable word outer opening closing last used later columns rows _ named opens heads some
      opensRows items closesRows closes =>
    have means : word.Means (.mark .dataTable) := named
    have inFront := tells_dataColumn.repeated _ heads
    have inside := (tells_dataRow (tells 0) _).separatedUnless _ items
    have behind : Tells (opening :: (later ++ [closing, last]))
        (rows.flatMap (·.flatMap fun cell => (cell.map Expr.words).getD [])) := by
      have encloses : last.kind.encloses = true := closes ▸ rfl
      have closed := (Tells.between opensRows closesRows ⟨rfl, rfl⟩ inside).inFront encloses
      simpa using closed
    have same :
        (rows.map (·.map (·.map Expr.words))).flatMap (·.flatMap fun cell => cell.getD []) =
          rows.flatMap (·.flatMap fun cell => (cell.map Expr.words).getD []) := by
      simp only [List.flatMap_map]
    rw [Expr.words_node, Form.map, Form.words, same]
    exact .cons means (.behind (opens ▸ rfl) (inFront.append behind))

/-! ## Expressions -/

/-- Climbing adds an operator and what the right operand says. -/
theorem Climbing.tells {operand : Rule Expr} (tells : TellsWords Expr.words operand) {level : Nat}
    {left whole : Expr} {before used : List Token} {next : TokenKind}
    (reading : Climbing operand level left used whole next) (inFront : Tells before left.words) :
    Tells (before ++ used) whole.words := by
  induction reading generalizing before with
  | done =>
    rw [List.append_nil]
    exact inFront
  | @step level left first right whole sign operator used middle later next joins _ reading
      tighter others ihTighter ihOthers =>
    have means : sign.Means (.binary operator) := BinaryOperator.ofKind?_eq_some_iff.mp joins
    have joined : Tells (before ++ sign :: (used ++ middle)) (left.join operator right).words := by
      rw [Expr.join, Expr.words_node]
      exact inFront.append (.cons means (ihTighter (tells reading)))
    have whole := ihOthers joined
    simpa using whole

theorem Expression.tells {operand : Rule Expr} (tells : TellsWords Expr.words operand)
    (level : Nat) : TellsWords Expr.words (Expression operand level) := by
  intro used whole next reading
  cases reading with
  | intro reading others => exact others.tells tells (tells reading)

theorem operandRule_tells (levels : Nat) : TellsWords Expr.words (operandRule levels) := by
  induction levels with
  | zero =>
    intro _ _ _ reading
    cases reading
  | succ levels ih => exact Operand.tells fun level => Expression.tells ih level

/-- **The tokens of an expression say what it says**, each one word. -/
theorem ExpressionOfLevel.tells {level : Nat} {used : List Token} {value : Expr}
    {next : TokenKind} (reading : ExpressionOfLevel level used value next) :
    Tells used value.words :=
  Expression.tells (operandRule_tells maxNesting) level reading

end Rule

end DaxScript
