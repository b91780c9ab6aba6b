import DaxScript.Proofs.Grammar.PrintedOperand
import DaxScript.Proofs.LosslessExpressions

/-!
# Keywords for the names of tables

A name in front of a column may be replaced by a keyword (`Rewording`), and the rules read the same
expression, with the keyword for the table of that column (`Rule.ExpressionOfLevel.rewords`).  The
keyword `NOT` is left out, since it is an operator in front of a column as anywhere.

There is one lemma for each rule.  A rule tells from the first token of its parts whether to go on,
and that token is a name only at the beginning of an operand, so nothing is asked there but whether
it is a certain sign.  Where a rule reads a name, the name is followed by something else than a
column, unless it is the table of one.
-/

set_option autoImplicit false

namespace DaxScript

open Production

/-! ## Other tables in expressions -/

/-- The node of a column with another table.  Nodes of other forms stay what they are. -/
def Form.withTable {α : Type} (name : String) : Form α → Form α
  | column _ own => column name own
  | form => form

namespace Expr

/-- Whether an expression reaches over an offset. -/
def IsOver (expr : Expr) (offset : Nat) : Prop :=
  expr.span.start ≤ offset ∧ offset < expr.span.stop

instance (expr : Expr) (offset : Nat) : Decidable (expr.IsOver offset) :=
  inferInstanceAs (Decidable (_ ∧ _))

/-- The expression with another table for the column at an offset. -/
def withTableAt (offset : Nat) (name : String) (expr : Expr) : Expr :=
  let form := expr.form.attach.map fun child => withTableAt offset name child.1
  node (if expr.IsOver offset then form.withTable name else form) expr.span
termination_by sizeOf expr
decreasing_by exact sizeOf_lt_of_mem_children child.2

variable (offset : Nat) (name : String)

theorem withTableAt_eq (expr : Expr) :
    expr.withTableAt offset name =
      node (if expr.IsOver offset then (expr.form.map (withTableAt offset name)).withTable name
        else expr.form.map (withTableAt offset name)) expr.span := by
  rw [withTableAt, Form.map_attach]

@[simp] theorem span_withTableAt (expr : Expr) :
    (expr.withTableAt offset name).span = expr.span := by
  rw [withTableAt_eq]
  rfl

/-- Where a node is no column only what is below it changes. -/
theorem withTableAt_node {form : Form Expr} {span : Span}
    (noColumn : (form.map (withTableAt offset name)).withTable name =
      form.map (withTableAt offset name)) :
    (node form span).withTableAt offset name =
      node (form.map (withTableAt offset name)) span := by
  rw [withTableAt_eq, form_node, span_node, noColumn, ite_self]

/-- A column has no children. -/
theorem withTableAt_column (table own : String) (span : Span) :
    (node (.column table own) span).withTableAt offset name =
      if (node (.column table own) span).IsOver offset then node (.column name own) span
      else node (.column table own) span := by
  rw [withTableAt_eq]
  split <;> rfl

/-- Another span makes no difference if it reaches over the offset just as the own one does. -/
theorem withTableAt_withSpan {expr : Expr} {span : Span}
    (same : (expr.withSpan span).IsOver offset ↔ expr.IsOver offset) :
    (expr.withSpan span).withTableAt offset name =
      (expr.withTableAt offset name).withSpan span := by
  rw [withTableAt_eq, withTableAt_eq]
  simp only [same]
  rfl

/-- Values make rows as before. -/
theorem row?_withTableAt (expr : Expr) :
    (expr.withTableAt offset name).row? = expr.row?.map (List.map (withTableAt offset name)) := by
  obtain ⟨form, span⟩ := expr
  cases form with
  | column table own =>
    have same : (node (.column table own) span).row? = some [node (.column table own) span] := rfl
    rw [same, Option.map_some, List.map_singleton, withTableAt_column]
    split <;> rfl
  | tuple values => rw [withTableAt_node offset name rfl]; rfl
  | table rows => rw [withTableAt_node offset name rfl]; rfl
  | _ =>
    simp only [row?, form_node, Option.map_some, List.map_singleton]
    rw [withTableAt_node offset name rfl]
    rfl

end Expr

/-! ## Names and keywords -/

/-- A name of a table that is to be written as a keyword. -/
structure Rewording where
  table : Token
  name : String
  isName : table.kind = .identifier name
  solid : table.span.start < table.span.stop
  keyword : Keyword
  namesTable : keyword ≠ .logicalNot
  /-- The keyword as it is written. -/
  word : String

namespace Rewording

variable (rewording : Rewording)

/-- The table becomes the keyword, and other tokens stay what they are. -/
def token (token : Token) : Token :=
  if token = rewording.table then
    { rewording.table with kind := .keyword rewording.keyword, spelling := rewording.word }
  else token

def expr (expr : Expr) : Expr :=
  expr.withTableAt rewording.table.span.start rewording.word

theorem span_expr (value : Expr) : (rewording.expr value).span = value.span :=
  Expr.span_withTableAt _ _ _

theorem table_ne {token : Token} (noName : isIdentifier token.kind = false) :
    rewording.table ≠ token := by
  rintro rfl
  rw [rewording.isName] at noName
  cases noName

/-- What is no name stays what it is. -/
theorem token_eq {token : Token} (noName : isIdentifier token.kind = false) :
    rewording.token token = token :=
  if_neg (rewording.table_ne noName).symm

theorem token_symbol {token : Token} {sign : Symbol} (isSign : token.kind = .symbol sign) :
    rewording.token token = token :=
  rewording.token_eq (by rw [isSign]; rfl)

theorem token_keyword {token : Token} {word : Keyword} (isWord : token.kind = .keyword word) :
    rewording.token token = token :=
  rewording.token_eq (by rw [isWord]; rfl)

theorem map_enclosed {opening closing : Token} {opens closes : Symbol}
    (isOpening : opening.kind = .symbol opens) (isClosing : closing.kind = .symbol closes)
    (used : List Token) : (opening :: (used ++ [closing])).map rewording.token =
      opening :: (used.map rewording.token ++ [closing]) := by
  rw [List.map_cons, List.map_append, List.map_singleton, rewording.token_symbol isOpening,
    rewording.token_symbol isClosing]

theorem mem_enclosed_iff {opening closing : Token} {opens closes : Symbol}
    (isOpening : opening.kind = .symbol opens) (isClosing : closing.kind = .symbol closes)
    (used : List Token) :
    rewording.table ∈ opening :: (used ++ [closing]) ↔ rewording.table ∈ used := by
  have notOpening : rewording.table ≠ opening := rewording.table_ne (by rw [isOpening]; rfl)
  have notClosing : rewording.table ≠ closing := rewording.table_ne (by rw [isClosing]; rfl)
  simp [notOpening, notClosing]

theorem span_token (token : Token) : (rewording.token token).span = token.span := by
  unfold Rewording.token
  split
  · next same => rw [same]
  · rfl

section Next

variable {used : List Token} {next : TokenKind}

/-- No sign comes first now that did not before. -/
theorem kindAfter_map_ne {sign : Symbol} (before : kindAfter used next ≠ .symbol sign) :
    kindAfter (used.map rewording.token) next ≠ .symbol sign := by
  cases used with
  | nil => exact before
  | cons token used =>
    simp only [List.map_cons, kindAfter_cons, Rewording.token]
    split
    · exact TokenKind.noConfusion
    · exact before

theorem isSymbol_kindAfter_map {sign : Symbol}
    (before : isSymbol sign (kindAfter used next) = false) :
    isSymbol sign (kindAfter (used.map rewording.token) next) = false :=
  beq_eq_false_iff_ne.mpr (rewording.kindAfter_map_ne (beq_eq_false_iff_ne.mp before))

end Next

variable {rewording} {used first second : List Token} {next : TokenKind}

/-- How the table may stand to some tokens and what follows them: it is one of them, or all of them
stand on one side of it; and behind it stands the name of a column. -/
structure Fits (rewording : Rewording) (used : List Token) (next : TokenKind) : Prop where
  ordered : InOrder used
  beside : rewording.table ∈ used ∨
    (∀ token ∈ used, token.span.stop ≤ rewording.table.span.start) ∨
    ∀ token ∈ used, rewording.table.span.stop ≤ token.span.start
  named : ∀ before after, used = before ++ rewording.table :: after →
    isBracketName (kindAfter after next) = true

namespace Fits

theorem left (fits : rewording.Fits (first ++ second) next) :
    rewording.Fits first (kindAfter second next) where
  ordered := fits.ordered.left
  beside := by
    rcases fits.beside with inside | before | behind
    · rcases List.mem_append.mp inside with inFirst | inSecond
      · exact .inl inFirst
      · exact .inr (.inl fun token member => fits.ordered.stop_le member inSecond)
    · exact .inr (.inl fun token member => before token (List.mem_append_left _ member))
    · exact .inr (.inr fun token member => behind token (List.mem_append_left _ member))
  named before after split := by
    rw [← kindAfter_append]
    exact fits.named before (after ++ second) (by rw [split]; simp)

theorem right (fits : rewording.Fits (first ++ second) next) : rewording.Fits second next where
  ordered := fits.ordered.right
  beside := by
    rcases fits.beside with inside | before | behind
    · rcases List.mem_append.mp inside with inFirst | inSecond
      · exact .inr (.inr fun token member => fits.ordered.stop_le inFirst member)
      · exact .inl inSecond
    · exact .inr (.inl fun token member => before token (List.mem_append_right _ member))
    · exact .inr (.inr fun token member => behind token (List.mem_append_right _ member))
  named before after split := fits.named (first ++ before) after (by rw [split]; simp)

theorem tail {token : Token} (fits : rewording.Fits (token :: used) next) :
    rewording.Fits used next := by
  have split : rewording.Fits ([token] ++ used) next := fits
  exact split.right

/-- A token that no column follows is not the table. -/
theorem token_eq {token : Token} (fits : rewording.Fits (token :: used) next)
    (noColumn : isBracketName (kindAfter used next) = false) : rewording.token token = token := by
  refine if_neg ?_
  rintro rfl
  exact absurd (fits.named [] used rfl) (Bool.eq_false_iff.mp noColumn)

/-- **The table stands among some tokens when a span over them reaches over its start.** -/
theorem isOver_iff (fits : rewording.Fits used next) {value : Expr}
    (covered : value.span.Covers used) :
    value.IsOver rewording.table.span.start ↔ rewording.table ∈ used := by
  have solid := rewording.solid
  constructor
  · rintro ⟨starts, stops⟩
    obtain ⟨opening, closing, head, last, same⟩ := covered
    rw [same] at starts stops
    rcases fits.beside with inside | before | behind
    · exact inside
    · have bound := before closing (List.mem_of_getLast? last)
      dsimp only at stops
      omega
    · have bound := behind opening (List.mem_of_mem_head? head)
      dsimp only at starts
      omega
  · intro inside
    obtain ⟨starts, stops⟩ := covered.bounds fits.ordered inside
    exact ⟨starts, by omega⟩

end Fits

/-! ## Rules that read the same with the keyword -/

/-- With the keyword for the table a rule reads the same, but for what becomes of the value. -/
def Rewords {α : Type} (rewording : Rewording) (carry : α → α) (rule : Rule α) : Prop :=
  ∀ ⦃used : List Token⦄ ⦃value : α⦄ ⦃next : TokenKind⦄, rule used value next →
    rewording.Fits used next → rule (used.map rewording.token) (carry value) next

/-- What a rule reads begins with a token that is no name. -/
def NoNameFirst {α : Type} (rule : Rule α) : Prop :=
  ∀ ⦃used : List Token⦄ ⦃value : α⦄ ⦃next : TokenKind⦄, rule used value next →
    ∃ first others, used = first :: others ∧ isIdentifier first.kind = false

section Repetition

open Rule

variable {α : Type} {item : Rule α} {carry : α → α}

theorem noNameFirst_afterComma (item : Rule α) : NoNameFirst (AfterComma item) := by
  intro used value next reading
  cases reading with
  | @intro comma used _ _ sign => exact ⟨comma, used, rfl, by rw [sign]; rfl⟩

theorem kindAfter_map_repeated (rewording : Rewording) (starts : NoNameFirst item)
    {continues : TokenKind → Bool}
    {used : List Token} {values : List α} {next : TokenKind}
    (reading : Repeated continues item used values next) :
    kindAfter (used.map rewording.token) next = kindAfter used next := by
  cases reading with
  | done => rfl
  | more _ reading _ =>
    obtain ⟨first, others, rfl, noName⟩ := starts reading
    exact congrArg Token.kind (rewording.token_eq noName)

variable (rewords : rewording.Rewords carry item)
include rewords

theorem Rewords.afterComma : rewording.Rewords carry (AfterComma item) := by
  intro used value next reading fits
  cases reading with
  | intro sign reading =>
    rw [List.map_cons, rewording.token_symbol sign]
    exact .intro sign (rewords reading fits.tail)

theorem Rewords.repeated (starts : NoNameFirst item) (continues : TokenKind → Bool) :
    rewording.Rewords (List.map carry) (Repeated continues item) := by
  intro used values next reading fits
  induction reading with
  | done stops => exact .done stops
  | @more used later value values next goesOn reading others ih =>
    have first := rewords reading fits.left
    have sameLater := rewording.kindAfter_map_repeated starts others
    obtain ⟨token, rest, rfl, noName⟩ := starts reading
    rw [List.map_append]
    refine .more ?_ (by rwa [sameLater]) (ih fits.right)
    rw [sameLater, List.map_cons, kindAfter_cons, rewording.token_eq noName]
    exact goesOn

theorem Rewords.separated : rewording.Rewords (List.map carry) (Rule.Separated item) := by
  intro used values next reading fits
  cases reading with
  | intro reading others =>
    have starts := noNameFirst_afterComma item
    have sameLater := rewording.kindAfter_map_repeated starts others
    rw [List.map_append]
    exact .intro (by rw [sameLater]; exact rewords reading fits.left)
      (rewords.afterComma.repeated starts _ others fits.right)

theorem Rewords.separatedUnless (close : Symbol) :
    rewording.Rewords (List.map carry) (SeparatedUnless close item) := by
  intro used values next reading fits
  cases reading with
  | none closes => exact .none closes
  | some opens items =>
    exact .some (rewording.kindAfter_map_ne opens) (rewords.separated items fits)

end Repetition

end Rewording

namespace Rule

variable {rewording : Rewording}

/-! ## Parts of operands -/

section Parts

variable {expr : Rule Expr} (rewords : rewording.Rewords rewording.expr expr)
include rewords

theorem rewords_arguments :
    rewording.Rewords (fun values => (values.1.map rewording.expr, values.2)) (Arguments expr) := by
  intro used values next reading fits
  cases reading with
  | @intro opening closing used values _ opens items closes =>
    have fits : rewording.Fits used closing.kind := fits.tail.left
    rw [rewording.map_enclosed opens closes]
    exact .intro opens (rewords.separatedUnless _ items fits) closes

theorem rewords_filters (target : Expr) {used : List Token} {value : Expr} {next : TokenKind}
    (reading : Filters expr target used value next) (fits : rewording.Fits used next) :
    Filters expr (rewording.expr target) (used.map rewording.token) (rewording.expr value)
      next := by
  cases reading with
  | none alone => exact .none alone
  | @some _ values stop _ filters =>
    have node : rewording.expr (.node (.calculate target values) ⟨target.span.start, stop⟩) =
        .node (.calculate (rewording.expr target) (values.map rewording.expr))
          ⟨(rewording.expr target).span.start, stop⟩ := by
      rw [Rewording.span_expr]
      exact Expr.withTableAt_node _ _ rfl
    rw [node]
    exact .some (rewords_arguments rewords filters fits)

/-- The name of a variable is not the table, since an equals sign follows it. -/
theorem rewords_binding :
    rewording.Rewords (fun binding => (binding.1, rewording.expr binding.2)) (Binding expr) := by
  intro used binding next reading fits
  cases reading with
  | @intro word symbol equals name used value _ opens named sign reading =>
    have sameSymbol : rewording.token symbol = symbol :=
      fits.tail.token_eq (by rw [kindAfter_cons, sign]; rfl)
    simp only [List.map_cons, sameSymbol, rewording.token_keyword opens,
      rewording.token_symbol sign]
    exact .intro opens named sign (rewords reading fits.tail.tail.tail)

theorem rewords_tableRow (width? : Option Nat) :
    rewording.Rewords (List.map rewording.expr) (TableRow expr width?) := by
  intro used row next reading fits
  cases reading with
  | intro reading isRow wide =>
    refine .intro (rewords reading fits) ?_ (by simpa using wide)
    rw [Rewording.expr, Expr.row?_withTableAt, isRow]
    rfl

theorem rewords_tableRows :
    rewording.Rewords (List.map (List.map rewording.expr)) (TableRows expr) := by
  intro used rows next reading fits
  cases reading with
  | none closes => exact .none closes
  | @some used later row rows _ opens first others =>
    have starts (width? : Option Nat) := Rewording.noNameFirst_afterComma (TableRow expr width?)
    have sameLater := rewording.kindAfter_map_repeated (starts _) others
    have opens := rewording.kindAfter_map_ne opens
    have others := (rewords_tableRow rewords _).afterComma.repeated (starts _) _ others fits.right
    have first := rewords_tableRow rewords _ first fits.left
    rw [← sameLater] at opens first
    rw [← List.length_map (f := rewording.expr)] at others
    rw [List.map_append]
    exact .some opens first others

theorem rewords_dataCell :
    rewording.Rewords (Option.map rewording.expr) (DataCell expr) := by
  intro used cell next reading fits
  cases reading with
  | absent ends => exact .absent ends
  | present starts reading =>
    obtain ⟨noComma, noBrace⟩ := Bool.or_eq_false_iff.mp starts
    refine .present ?_ (rewords reading fits)
    rw [rewording.isSymbol_kindAfter_map noComma, rewording.isSymbol_kindAfter_map noBrace]
    rfl

theorem rewords_dataRow (width : Nat) :
    rewording.Rewords (List.map (Option.map rewording.expr)) (DataRow expr width) := by
  intro used cells next reading fits
  cases reading with
  | @intro opening closing used cells _ opens items closes wide =>
    have fits : rewording.Fits used closing.kind := fits.tail.left
    rw [rewording.map_enclosed opens closes]
    exact .intro opens ((rewords_dataCell rewords).separated items fits) closes
      (by simpa using wide)

end Parts

/-- The type of a column of data is not the table, since a comma follows it. -/
theorem rewords_dataColumn : rewording.Rewords id DataColumn := by
  intro used column next reading fits
  cases reading with
  | @intro text between word after name spelling type _ named comma typed known comma' =>
    have sameText : rewording.token text = text := rewording.token_eq (by rw [named]; rfl)
    have sameWord : rewording.token word = word :=
      fits.tail.tail.token_eq (by rw [kindAfter_cons, comma']; rfl)
    simp only [List.map_cons, List.map_nil, sameText, sameWord, rewording.token_symbol comma,
      rewording.token_symbol comma']
    exact .intro named comma typed known comma'

theorem noNameFirst_dataColumn : Rewording.NoNameFirst DataColumn := by
  intro used column next reading
  cases reading with
  | @intro text _ _ _ _ _ _ _ named => exact ⟨text, _, rfl, by rw [named]; rfl⟩

theorem noNameFirst_binding (expr : Rule Expr) : Rewording.NoNameFirst (Binding expr) := by
  intro used binding next reading
  cases reading with
  | @intro word _ _ _ _ _ _ opens => exact ⟨word, _, rfl, by rw [opens]; rfl⟩

/-! ## Operands -/

/-- What an operand by itself says has no table in front of a column. -/
theorem withTableAt_of_leaf? {kind : TokenKind} {form : Form Expr} (stated : kind.leaf? = some form)
    (offset : Nat) (name : String) (span : Span) :
    (Expr.node form span).withTableAt offset name = .node form span := by
  unfold TokenKind.leaf? at stated
  split at stated <;> cases stated <;> exact Expr.withTableAt_node _ _ rfl

/-- A name by itself is not the table, since no column follows it. -/
theorem noBracket_of_standsAlone {kind next : TokenKind} (alone : kind.standsAlone next = true)
    (isName : isIdentifier kind = true) : isBracketName next = false := by
  cases kind with
  | identifier =>
    simp only [TokenKind.standsAlone, Bool.and_eq_true, Bool.not_eq_true'] at alone
    exact alone.1
  | _ => cases isName

/-- The keyword names a table in front of a column. -/
theorem tableName?_token {rewording : Rewording} {table : Token} {name : String}
    (named : table.tableName? = some name) :
    (rewording.token table).tableName? =
      some (if table = rewording.table then rewording.word else name) := by
  unfold Rewording.token
  split
  · have namesTable := rewording.namesTable
    generalize rewording.keyword = keyword at namesTable
    cases keyword with
    | logicalNot => exact absurd rfl namesTable
    | _ => rfl
  · exact named

/-- The column behind the table is the one with the other table. -/
theorem expr_column {rewording : Rewording} {table column : Token} {name own : String}
    {columnName : String} {next : TokenKind} (columnNamed : column.kind = .bracketName columnName)
    (fits : rewording.Fits [table, column] next) :
    rewording.expr (.node (.column name own) (table.span.cover column.span)) =
      .node (.column (if table = rewording.table then rewording.word else name) own)
        ((rewording.token table).span.cover column.span) := by
  have ordered : InOrder ([table] ++ ([] ++ [column])) := fits.ordered
  have covered : (Expr.node (.column name own) (table.span.cover column.span)).span.Covers
      [table, column] := Span.Covers.cover (.single table) (.single column) ordered
  have isTable : rewording.table ∈ [table, column] ↔ table = rewording.table := by
    have notColumn : rewording.table ≠ column := rewording.table_ne (by rw [columnNamed]; rfl)
    simp [notColumn, eq_comm]
  rw [Rewording.expr, Expr.withTableAt_column, rewording.span_token]
  by_cases same : table = rewording.table
  · rw [if_pos ((fits.isOver_iff covered).mpr (isTable.mpr same)), if_pos same]
  · rw [if_neg fun reaches => same (isTable.mp ((fits.isOver_iff covered).mp reaches)), if_neg same]

section Operands

variable {expr : Nat → Rule Expr} (spanned : ∀ level, Spanned (expr level))
  (rewords : ∀ level, rewording.Rewords rewording.expr (expr level))
include spanned rewords

/-- **An operand is read with the keyword as well** if that holds of the expressions inside. -/
theorem rewords_operand : rewording.Rewords rewording.expr (Operand expr) := by
  intro used value next reading fits
  cases reading with
  | @leaf token form _ stated alone =>
    have same : rewording.token token = token := by
      cases isName : isIdentifier token.kind with
      | true => exact fits.token_eq (noBracket_of_standsAlone alone isName)
      | false => exact rewording.token_eq isName
    rw [List.map_singleton, same, Rewording.expr, withTableAt_of_leaf? stated]
    exact .leaf stated alone
  | @measure token name used value _ named filters =>
    have same : rewording.token token = token := rewording.token_eq (by rw [named]; rfl)
    have target : rewording.expr (.node (.measure name) token.span) =
        .node (.measure name) token.span := Expr.withTableAt_node _ _ rfl
    have filters := rewords_filters (rewords 0) _ filters fits.tail
    rw [target] at filters
    rw [List.map_cons, same]
    exact .measure named filters
  | @column table column tableName columnName used value _ tableNamed columnNamed filters =>
    have front : rewording.Fits ([table, column] ++ used) next := fits
    have same : rewording.token column = column := rewording.token_eq (by rw [columnNamed]; rfl)
    have filters := rewords_filters (rewords 0) _ filters fits.tail.tail
    rw [expr_column columnNamed front.left] at filters
    rw [List.map_cons, List.map_cons, same]
    exact .column (tableName?_token tableNamed) columnNamed filters
  | @call token name used values stop _ named arguments =>
    have same : rewording.token token = token := by
      cases arguments with
      | intro opens items closes => exact fits.token_eq (by rw [kindAfter_cons, opens]; rfl)
    rw [List.map_cons, same, Rewording.expr, Expr.withTableAt_node _ _ rfl]
    exact .call named (rewords_arguments (rewords 0) arguments fits.tail)
  | @unary token operator used value _ sign operand =>
    have same : rewording.token token = token := by
      refine rewording.token_eq ?_
      cases kind : token.kind with
      | identifier =>
        rw [kind] at sign
        cases sign
      | _ => rfl
    rw [List.map_cons, same, Rewording.expr, Expr.withTableAt_node _ _ rfl,
      ← rewording.span_expr value]
    exact .unary sign (rewords _ operand fits.tail)
  | @bindings word result used later values body _ opens items separates reading =>
    have split : word :: (used ++ result :: later) = (word :: used) ++ (result :: later) := rfl
    rw [split] at fits
    have items := (rewords_binding (rewords 0)).repeated (noNameFirst_binding _) _ items fits.left
    rw [List.map_cons, rewording.token_keyword opens] at items
    rw [List.map_cons, List.map_append, List.map_cons, rewording.token_keyword opens,
      rewording.token_keyword separates, Rewording.expr, Expr.withTableAt_node _ _ rfl,
      ← rewording.span_expr body]
    exact .bindings opens items separates (rewords 0 reading fits.right.tail)
  | @group opening closing used value _ opens reading closes =>
    rw [rewording.map_enclosed opens closes]
    have inner := fits.tail.left
    have covered : (value.withSpan (opening.span.cover closing.span)).span.Covers
        (opening :: (used ++ [closing])) :=
      (Span.Covers.single opening).cover (.single closing) fits.ordered
    -- The parentheses reach over nothing else that is a name.
    have same : (value.withSpan (opening.span.cover closing.span)).IsOver
        rewording.table.span.start ↔ value.IsOver rewording.table.span.start := by
      rw [fits.isOver_iff covered, inner.isOver_iff (spanned 0 reading inner.ordered),
        rewording.mem_enclosed_iff opens closes]
    rw [Rewording.expr, Expr.withTableAt_withSpan _ _ same]
    exact .group opens (rewords 0 reading inner) closes
  | @tuple opening closing used first second others _ opens items closes =>
    rw [rewording.map_enclosed opens closes, Rewording.expr, Expr.withTableAt_node _ _ rfl]
    exact .tuple opens ((rewords 0).separated items fits.tail.left) closes
  | @table opening closing used rows _ opens items closes =>
    rw [rewording.map_enclosed opens closes, Rewording.expr, Expr.withTableAt_node _ _ rfl]
    exact .table opens (rewords_tableRows (rewords 0) items fits.tail.left) closes
  | @dataTable word outer opening closing last used later columns rows _ named opens heads some
      opensRows items closesRows closes =>
    rw [List.map_cons, List.map_cons, List.map_append, List.map_cons, List.map_append,
      List.map_cons, List.map_singleton, rewording.token_keyword named,
      rewording.token_symbol opens, rewording.token_symbol opensRows,
      rewording.token_symbol closesRows, rewording.token_symbol closes, Rewording.expr,
      Expr.withTableAt_node _ _ rfl]
    have inner := fits.tail.tail
    have heads := rewords_dataColumn.repeated noNameFirst_dataColumn _ heads inner.left
    have items := (rewords_dataRow (rewords 0) _).separatedUnless _ items inner.right.tail.left
    rw [List.map_id] at heads
    exact .dataTable named opens heads some opensRows items closesRows closes

end Operands

/-! ## Climbing -/

/-- No operator is a name. -/
theorem isIdentifier_of_joins {kind : TokenKind} {operator : BinaryOperator}
    (joins : BinaryOperator.ofKind? kind = some operator) : isIdentifier kind = false := by
  cases kind with
  | identifier => cases joins
  | _ => rfl

theorem kindAfter_map_climbing (rewording : Rewording) {operand : Rule Expr} {level : Nat}
    {left whole : Expr}
    {used : List Token} {next : TokenKind}
    (reading : Climbing operand level left used whole next) :
    kindAfter (used.map rewording.token) next = kindAfter used next := by
  cases reading with
  | done => rfl
  | step joins => exact congrArg Token.kind (rewording.token_eq (isIdentifier_of_joins joins))

theorem expr_join (rewording : Rewording) (left right : Expr) (operator : BinaryOperator) :
    rewording.expr (left.join operator right) =
      (rewording.expr left).join operator (rewording.expr right) := by
  rw [Expr.join, Rewording.expr, Expr.withTableAt_node _ _ rfl, Expr.join, rewording.span_expr,
    rewording.span_expr]
  rfl

theorem rewords_climbing {operand : Rule Expr}
    (rewords : rewording.Rewords rewording.expr operand) (level : Nat) {left whole : Expr}
    {used : List Token} {next : TokenKind} (reading : Climbing operand level left used whole next)
    (fits : rewording.Fits used next) :
    Climbing operand level (rewording.expr left) (used.map rewording.token)
      (rewording.expr whole) next := by
  induction reading with
  | done stops => exact .done stops
  | @step level left first right whole sign operator used middle later next joins binds reading
      tighter others ihTighter ihOthers =>
    have sameLater := kindAfter_map_climbing rewording others
    have sameMiddle := kindAfter_map_climbing rewording tighter
    have reading := rewords reading (kindAfter_append middle later next ▸ fits.tail.left)
    have tighter := ihTighter fits.tail.right.left
    have others := ihOthers fits.tail.right.right
    rw [← sameMiddle, ← sameLater] at reading
    rw [← sameLater] at tighter
    rw [expr_join] at others
    rw [List.map_cons, List.map_append, List.map_append,
      rewording.token_eq (isIdentifier_of_joins joins)]
    exact .step joins binds reading tighter others

theorem rewords_expression {operand : Rule Expr}
    (rewords : rewording.Rewords rewording.expr operand) (level : Nat) :
    rewording.Rewords rewording.expr (Expression operand level) := by
  intro used value next reading fits
  cases reading with
  | intro reading others =>
    rw [List.map_append]
    refine .intro ?_ (rewords_climbing rewords level others fits.right)
    rw [kindAfter_map_climbing rewording others]
    exact rewords reading fits.left

theorem rewords_operandRule (levels : Nat) :
    rewording.Rewords rewording.expr (operandRule levels) := by
  induction levels with
  | zero =>
    intro _ _ _ reading
    cases reading
  | succ levels ih =>
    exact rewords_operand (fun level => Expression.spanned (operandRule_spanned levels) level)
      (rewords_expression ih)

/-- **An expression is read with a keyword for the name of a table as well.** -/
theorem ExpressionOfLevel.rewords (rewording : Rewording) (level : Nat) :
    rewording.Rewords rewording.expr (ExpressionOfLevel level) :=
  rewords_expression (rewords_operandRule maxNesting) level

/-! ## The tokens of a column -/

/-- What climbing makes has children, unless it joins nothing. -/
theorem Climbing.eq_left_of_childless {operand : Rule Expr} {level : Nat} {left whole : Expr}
    {used : List Token} {next : TokenKind} (reading : Climbing operand level left used whole next)
    (childless : whole.children = []) : used = [] ∧ whole = left := by
  induction reading with
  | done => exact ⟨rfl, rfl⟩
  | step _ _ _ _ _ _ ihOthers =>
    obtain ⟨_, rfl⟩ := ihOthers childless
    cases childless

/-- The tokens of a column: its table and its name, with nothing but signs around them. -/
structure IsColumn (own : List Token) (name : String) (opening : List Token) (table column : Token)
    (closing : List Token) : Prop where
  cut : own = opening ++ table :: column :: closing
  tableNamed : table.tableName? = some name
  named : isBracketName column.kind = true
  signs : ∀ token ∈ opening ++ closing, isIdentifier token.kind = false

/-- **A column is read from a table and a name, which may stand in parentheses.** -/
theorem exists_isColumn_of_operand {levels : Nat} {own : List Token} {node : Expr}
    {next : TokenKind} {table name : String} (reading : operandRule levels own node next)
    (isColumn : node.form = .column table name) :
    ∃ opening first second closing, IsColumn own table opening first second closing := by
  induction levels generalizing own node next with
  | zero => cases reading
  | succ levels ih =>
    cases reading with
    | leaf stated =>
      unfold TokenKind.leaf? at stated
      split at stated <;> cases stated <;> cases isColumn
    | measure _ filters => cases filters <;> cases isColumn
    | @column first second _ _ used value _ tableNamed columnNamed filters =>
      cases filters with
      | none =>
        obtain ⟨rfl, _⟩ := Form.column.inj isColumn
        refine ⟨[], first, second, [], rfl, tableNamed, by rw [columnNamed]; rfl, ?_⟩
        rintro token ⟨⟩
      | some => cases isColumn
    | @group opening closing used value _ opens reading closes =>
      have inside : value.form = .column table name := isColumn
      cases reading with
      | intro reading others =>
        obtain ⟨rfl, rfl⟩ := others.eq_left_of_childless (by rw [Expr.children, inside]; rfl)
        obtain ⟨front, first, second, behind, rfl, tableNamed, named, signs⟩ := ih reading inside
        refine ⟨opening :: front, first, second, behind ++ [closing], by simp, tableNamed, named,
          ?_⟩
        intro token member
        simp only [List.cons_append, List.mem_cons, ← List.append_assoc] at member
        rcases member with rfl | member
        · rw [opens]
          rfl
        · rcases List.mem_append.mp member with inner | isClosing
          · exact signs token inner
          · rw [List.mem_singleton.mp isClosing, closes]
            rfl
    | _ => cases isColumn

theorem ExpressionOfLevel.exists_isColumn {level : Nat} {own : List Token} {node : Expr}
    {next : TokenKind} {table name : String} (reading : ExpressionOfLevel level own node next)
    (isColumn : node.form = .column table name) :
    ∃ opening first second closing, IsColumn own table opening first second closing := by
  cases reading with
  | intro reading others =>
    obtain ⟨rfl, rfl⟩ := others.eq_left_of_childless (by rw [Expr.children, isColumn]; rfl)
    rw [List.append_nil]
    exact exists_isColumn_of_operand reading isColumn

end Rule

end DaxScript
