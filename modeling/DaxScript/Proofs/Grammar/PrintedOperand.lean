import DaxScript.Proofs.Grammar.ExpressionRule
import DaxScript.Proofs.Grammar.Printing

/-!
# Reading printed operands

What is printed for a node is read as that node, if what is printed for its children is read as
them.  `Rule.Reads` says of a rule what it reads from pieces, wherever these stand, up to a view of
the value: expressions are seen bare.  There is one lemma for each rule that a node is made of, and
one for each form of a node.

The children stand in parentheses, which are an operand of their own (`Rule.reads_group`).
-/

set_option autoImplicit false

namespace DaxScript

open Piece Production

/-! ## Tokens of printed pieces -/

namespace Piece

theorem tokens_token {kind : TokenKind} (meaning : kind.isTrivia = false) (spelling : List Char)
    (fault : Option LexicalFault) (position : Position) (pieces : List Piece) :
    tokens position (token kind spelling fault :: pieces) =
      Token.place kind position spelling :: tokens (position.advanceAll spelling) pieces := by
  have own : (token kind spelling fault).ownTokens position =
      [Token.place kind position spelling] := by
    simp [ownTokens, token?, Token.place, meaning]
  rw [tokens, own]
  rfl

section Tokens

variable (position : Position) (pieces : List Piece)

theorem tokens_space :
    tokens position (space :: pieces) = tokens (position.advanceAll [' ']) pieces := rfl

theorem tokens_append_space : tokens position (pieces ++ [space]) = tokens position pieces := by
  rw [tokens_append, tokens_space]
  exact List.append_nil _

theorem tokens_ofSymbol (sign : Symbol) :
    tokens position (ofSymbol sign :: pieces) =
      Token.place (.symbol sign) position sign.spelling.toList ::
        tokens (position.advanceAll sign.spelling.toList) pieces :=
  tokens_token rfl _ _ _ _

theorem tokens_ofKeyword (word : Keyword) :
    tokens position (ofKeyword word :: pieces) =
      Token.place (.keyword word) position word.name.toList ::
        tokens (position.advanceAll word.name.toList) pieces :=
  tokens_token rfl _ _ _ _

theorem tokens_identifier (name : String) (spelling : List Char) :
    tokens position (token (.identifier name) spelling none :: pieces) =
      Token.place (.identifier name) position spelling ::
        tokens (position.advanceAll spelling) pieces :=
  tokens_token rfl _ _ _ _

theorem tokens_enclosed (enclosure : Enclosure) (content : String) :
    tokens position (enclosed enclosure content :: pieces) =
      Token.place (enclosure.kind content) position (enclosed enclosure content).spelling ::
        tokens (position.advanceAll (enclosed enclosure content).spelling) pieces :=
  tokens_token (by cases enclosure <;> rfl) _ _ _ _

/-- Something in parentheses or braces has a token in front and one behind. -/
theorem tokens_between (opening closing : Symbol) :
    let inner := position.advanceAll opening.spelling.toList
    tokens position (ofSymbol opening :: (pieces ++ [ofSymbol closing])) =
      Token.place (.symbol opening) position opening.spelling.toList ::
        (tokens inner pieces ++
          [Token.place (.symbol closing) (inner.advanceAll (text pieces))
            closing.spelling.toList]) := by
  intro inner
  rw [tokens_ofSymbol, tokens_append, tokens_ofSymbol]
  rfl

theorem kindAfter_parenthesized (next : TokenKind) :
    kindAfter (tokens position (parenthesized pieces)) next = .symbol .leftParen := rfl

theorem kindAfter_braced (next : TokenKind) :
    kindAfter (tokens position (braced pieces)) next = .symbol .leftBrace := rfl

/-- Behind an item stands a comma, or what stands behind all items. -/
theorem kindAfter_flatMap_behindComma (items : List (List Piece)) (close : TokenKind) :
    kindAfter (tokens position (items.flatMap behindComma)) close = .symbol .comma ∨
      kindAfter (tokens position (items.flatMap behindComma)) close = close := by
  cases items with
  | nil => exact .inr rfl
  | cons => exact .inl rfl

end Tokens

/-- A name is written as an identifier. -/
theorem ofWord_name {name : String} (named : isName name = true) :
    ofWord name.toList = token (.identifier name) name.toList none := by
  have noKeyword : Keyword.ofWord? name = none :=
    Option.isNone_iff_eq_none.mp (Bool.and_eq_true_iff.mp named).2
  simp only [ofWord, String.ofList_toList, noKeyword]

/-- What a function may be called by is written as a token that names it. -/
theorem exists_ofWord_callName {name : String} (named : isCallName name = true) :
    ∃ kind : TokenKind, kind.functionName? = some name ∧ kind.isTrivia = false ∧
      ofWord name.toList = token kind name.toList none := by
  rcases Bool.or_eq_true_iff.mp named with isName | isKeyword
  · exact ⟨.identifier name, rfl, rfl, ofWord_name isName⟩
  · simp only [List.contains_eq_mem, List.mem_cons, List.not_mem_nil, or_false,
      decide_eq_true_eq] at isKeyword
    have written (word : Keyword) :
        ofWord word.name.toList = token (.keyword word) word.name.toList none := by
      simp only [ofWord, String.ofList_toList, Keyword.ofWord?_name]
    rcases isKeyword with rfl | rfl | rfl | rfl | rfl
    · exact ⟨.keyword .trueValue, rfl, rfl, written .trueValue⟩
    · exact ⟨.keyword .falseValue, rfl, rfl, written .falseValue⟩
    · exact ⟨.keyword .blank, rfl, rfl, written .blank⟩
    · exact ⟨.keyword .logicalAnd, rfl, rfl, written .logicalAnd⟩
    · exact ⟨.keyword .logicalOr, rfl, rfl, written .logicalOr⟩

end Piece

namespace Rule

variable {α β γ σ : Type}

/-- Wherever some pieces stand, the rule reads a value from them that is seen as the given one. -/
def Reads (rule : Rule α) (view : α → γ) (pieces : List Piece) (next : TokenKind) (seen : γ) :
    Prop :=
  ∀ position, ∃ value, rule (tokens position pieces) value next ∧ view value = seen

/-- Lists that are seen as the same are of one length. -/
theorem length_eq_of_view {view : α → γ} {read values : List α}
    (same : read.map view = values.map view) : read.length = values.length := by
  rw [← List.length_map view, same, List.length_map]

/-! ## Repetition -/

/-- **Items that are read one by one are read by a repetition.** -/
theorem reads_repeated {continues : TokenKind → Bool} {item : Rule α} {view : α → γ}
    {write : σ → List Piece} {meaning : σ → γ} {close : TokenKind} (stops : continues close = false)
    {sources : List σ}
    (starts : ∀ source ∈ sources, ∀ position next,
      continues (kindAfter (tokens position (write source)) next) = true)
    (each : ∀ source ∈ sources, ∀ next, continues next = true ∨ next = close →
      Reads item view (write source) next (meaning source)) :
    Reads (Repeated continues item) (List.map view) (sources.flatMap write) close
      (sources.map meaning) := by
  induction sources with
  | nil => exact fun _ => ⟨[], .done stops, rfl⟩
  | cons source sources ih =>
    rw [List.forall_mem_cons] at starts each
    intro position
    obtain ⟨values, others, sameOthers⟩ :=
      ih starts.2 each.2 (position.advanceAll (text (write source)))
    have behind (after : Position) :
        continues (kindAfter (tokens after (sources.flatMap write)) close) = true ∨
          kindAfter (tokens after (sources.flatMap write)) close = close := by
      cases sources with
      | nil => exact .inr rfl
      | cons other sources =>
        rw [List.flatMap_cons, tokens_append, kindAfter_append]
        exact .inl (starts.2 other (.head _) _ _)
    obtain ⟨value, reading, same⟩ := each.1 _ (behind _) position
    refine ⟨value :: values, ?_, ?_⟩
    · rw [List.flatMap_cons, tokens_append]
      exact .more (starts.1 _ _) reading others
    · rw [List.map_cons, List.map_cons, same, sameOthers]

theorem reads_afterComma {item : Rule α} {view : α → γ} {pieces : List Piece} {next : TokenKind}
    {seen : γ} (reads : Reads item view pieces next seen) :
    Reads (AfterComma item) view (behindComma pieces) next seen := by
  intro position
  rw [behindComma, tokens_ofSymbol, tokens_space]
  obtain ⟨value, reading, same⟩ := reads _
  exact ⟨value, .intro rfl reading, same⟩

section Listed

variable {item : Rule α} {view : α → γ} {write : σ → List Piece} {meaning : σ → γ}
  {close : TokenKind} {sources : List σ}

/-- Items behind commas are read in front of what is no comma. -/
theorem reads_commaSeparated (noComma : close ≠ .symbol .comma)
    (each : ∀ source ∈ sources, ∀ next, next = .symbol .comma ∨ next = close →
      Reads item view (write source) next (meaning source)) :
    Reads (CommaSeparated item) (List.map view) ((sources.map write).flatMap behindComma) close
      (sources.map meaning) := by
  rw [List.flatMap_map]
  have starts : ∀ source ∈ sources, ∀ position next, isSymbol .comma
      (kindAfter (tokens position (behindComma (write source))) next) = true :=
    fun _ _ _ _ => rfl
  have stops : isSymbol .comma close = false := beq_eq_false_iff_ne.mpr noComma
  refine reads_repeated stops starts ?_
  intro source isSource next either
  exact reads_afterComma (each source isSource next (either.imp_left isSymbol_iff.mp))

/-- Items with commas between them are read in front of what is no comma. -/
theorem reads_separated (noComma : close ≠ .symbol .comma) (some : sources ≠ [])
    (each : ∀ source ∈ sources, ∀ next, next = .symbol .comma ∨ next = close →
      Reads item view (write source) next (meaning source)) :
    Reads (Separated item) (List.map view) (listed (sources.map write)) close
      (sources.map meaning) := by
  obtain ⟨source, sources, rfl⟩ := List.exists_cons_of_ne_nil some
  rw [List.forall_mem_cons] at each
  intro position
  obtain ⟨values, others, sameOthers⟩ := reads_commaSeparated noComma each.2
    (position.advanceAll (text (write source)))
  obtain ⟨value, reading, same⟩ := each.1 _ (kindAfter_flatMap_behindComma _ _ close) position
  refine ⟨value :: values, ?_, ?_⟩
  · rw [List.map_cons, listed, tokens_append]
    exact .intro reading others
  · rw [List.map_cons, List.map_cons, same, sameOthers]

/-- In front of a closing sign there may be none. -/
theorem reads_separatedUnless {sign : Symbol} (noComma : sign ≠ .comma)
    (starts : ∀ source ∈ sources, ∀ position next,
      kindAfter (tokens position (write source)) next ≠ .symbol sign)
    (each : ∀ source ∈ sources, ∀ next, next = .symbol .comma ∨ next = .symbol sign →
      Reads item view (write source) next (meaning source)) :
    Reads (SeparatedUnless sign item) (List.map view) (listed (sources.map write)) (.symbol sign)
      (sources.map meaning) := by
  have noComma : TokenKind.symbol sign ≠ .symbol .comma := fun same =>
    noComma (TokenKind.symbol.inj same)
  intro position
  cases sources with
  | nil => exact ⟨[], .none rfl, rfl⟩
  | cons source sources =>
    obtain ⟨values, reading, same⟩ := reads_separated noComma (List.cons_ne_nil _ _) each position
    refine ⟨values, .some ?_ reading, same⟩
    rw [List.map_cons, listed, tokens_append, kindAfter_append]
    exact starts source (.head _) _ _

end Listed

/-! ## What the children are printed as -/

/-- A value in parentheses is read wherever no operator follows. -/
def ReadsInside (expr : Rule Expr) (write : Expr → List Piece) (value : Expr) : Prop :=
  ∀ next, BinaryOperator.ofKind? next = none →
    Reads expr Expr.bare (parenthesized (write value)) next value.bare

/-- **Parentheses are an operand** that is read as what they contain. -/
theorem reads_group {expr : Nat → Rule Expr} {pieces : List Piece} {seen : Expr}
    (reads : Reads (expr 0) Expr.bare pieces (.symbol .rightParen) seen) (next : TokenKind) :
    Reads (Operand expr) Expr.bare (parenthesized pieces) next seen := by
  intro position
  rw [parenthesized, tokens_between]
  obtain ⟨value, reading, same⟩ := reads _
  exact ⟨_, .group rfl reading rfl, (value.bare_withSpan _).trans same⟩

/-- An operand is an expression where no operator follows. -/
theorem reads_expression {operand : Rule Expr} {pieces : List Piece} {next : TokenKind}
    {seen : Expr} (reads : Reads operand Expr.bare pieces next seen)
    (noOperator : BinaryOperator.ofKind? next = none) (level : Nat) :
    Reads (Expression operand level) Expr.bare pieces next seen := by
  intro position
  obtain ⟨value, reading, same⟩ := reads position
  exact ⟨value, .of_operand reading noOperator, same⟩

section Parts

variable {expr : Rule Expr} {write : Expr → List Piece}

theorem reads_inside_before_comma {value : Expr} {sign : Symbol} {next : TokenKind}
    (inside : ReadsInside expr write value)
    (noOperator : BinaryOperator.ofKind? (.symbol sign) = none)
    (either : next = .symbol .comma ∨ next = .symbol sign) :
    Reads expr Expr.bare (parenthesized (write value)) next value.bare := by
  rcases either with rfl | rfl
  · exact inside _ rfl
  · exact inside _ noOperator

/-- Arguments and filters are read in their parentheses. -/
theorem reads_arguments {values : List Expr} (each : ∀ value ∈ values, ReadsInside expr write value)
    (next : TokenKind) :
    Reads (Arguments expr) (fun read => read.1.map Expr.bare)
      (Form.renderTuple (values.map write)) next (values.map Expr.bare) := by
  intro position
  rw [Form.renderTuple, List.map_map, parenthesized, tokens_between]
  have items : Reads (SeparatedUnless .rightParen expr) (List.map Expr.bare)
      (listed (values.map (parenthesized ∘ write))) (.symbol .rightParen)
      (values.map Expr.bare) := by
    refine reads_separatedUnless (by decide) (fun _ _ _ _ => by simp [kindAfter_parenthesized]) ?_
    exact fun value isValue next => reads_inside_before_comma (each value isValue) rfl
  obtain ⟨values, reading, same⟩ := items _
  exact ⟨(values, _), .intro rfl reading rfl, same⟩

/-- `VAR name = (value)` -/
theorem reads_binding {name : String} {value : Expr} {next : TokenKind}
    (named : isName name = true) (inside : ReadsInside expr write value)
    (noOperator : BinaryOperator.ofKind? next = none) :
    Reads (Binding expr) (fun part => (part.1, part.2.bare))
      (Form.renderBinding (name, write value)) next (name, value.bare) := by
  intro position
  simp only [Form.renderBinding, ofWord_name named, tokens_ofKeyword, tokens_ofSymbol,
    tokens_identifier, tokens_space]
  obtain ⟨read, reading, same⟩ := inside next noOperator _
  exact ⟨(name, read), .intro rfl rfl rfl reading, Prod.ext rfl same⟩

/-- `"name", TYPE,` -/
theorem reads_dataColumn (column : Column) (next : TokenKind) :
    Reads DataColumn id column.pieces next column := by
  obtain ⟨name, type⟩ := column
  have written : ofWord type.name.toList = token (.identifier type.name) type.name.toList none := by
    cases type <;> rfl
  have known : ColumnType.ofWord? type.name = some type := by
    cases type <;> rfl
  intro position
  simp only [Column.pieces, written, tokens_enclosed, tokens_ofSymbol, tokens_identifier,
    tokens_space]
  exact ⟨⟨name, type⟩, .intro rfl rfl rfl known rfl, rfl⟩

/-- Every cell of a row of data is read, also one that is left out. -/
theorem reads_dataRow {cells : List (Option Expr)} {width : Nat} (wide : width ≠ 0)
    (fits : cells.length = width)
    (each : ∀ cell ∈ cells, ∀ value ∈ cell, ReadsInside expr write value) (next : TokenKind) :
    Reads (DataRow expr width) (List.map (Option.map Expr.bare))
      (Form.renderDataRow (cells.map (Option.map write))) next
      (cells.map (Option.map Expr.bare)) := by
  have isCell : ∀ cell ∈ cells, ∀ next, next = .symbol .comma ∨ next = .symbol .rightBrace →
      Reads (DataCell expr) (Option.map Expr.bare) (Form.renderCell (cell.map write)) next
        (cell.map Expr.bare) := by
    intro cell isCell next either position
    cases cell with
    | none => exact ⟨none, .absent (by rcases either with rfl | rfl <;> rfl), rfl⟩
    | some value =>
      obtain ⟨read, reading, same⟩ :=
        reads_inside_before_comma (each _ isCell value rfl) rfl either position
      exact ⟨some read, .present rfl reading, congrArg some same⟩
  have items : Reads (Separated (DataCell expr)) (List.map (Option.map Expr.bare))
      (listed (cells.map (Form.renderCell ∘ Option.map write))) (.symbol .rightBrace)
      (cells.map (Option.map Expr.bare)) := by
    refine reads_separated (by decide) ?_ isCell
    rintro rfl
    exact wide fits.symm
  intro position
  rw [Form.renderDataRow, List.map_map, braced, tokens_between]
  obtain ⟨read, reading, same⟩ := items _
  exact ⟨read, .intro rfl reading rfl ((length_eq_of_view same).trans fits), same⟩

end Parts

/-! ## Rows of table constructors -/

/-- A value makes the row that it makes bare. -/
theorem row?_bare (value : Expr) : value.bare.row? = value.row?.map (List.map Expr.bare) := by
  obtain ⟨form, span⟩ := value
  rw [Expr.bare_node]
  cases form <;> simp [Expr.row?, Form.map, Expr.bare_node]

/-- A row is read from a tuple of its values, or from its only value. -/
theorem reads_tableRow {expr : Rule Expr} {pieces : List Piece} {whole : Expr} {row : List Expr}
    {next : TokenKind} (reads : Reads expr Expr.bare pieces next whole.bare)
    (isRow : whole.row? = some row) {width? : Option Nat}
    (fits : ∀ width ∈ width?, row.length = width) :
    Reads (TableRow expr width?) (List.map Expr.bare) pieces next (row.map Expr.bare) := by
  intro position
  obtain ⟨value, reading, same⟩ := reads position
  have rows : value.row?.map (List.map Expr.bare) = some (row.map Expr.bare) := by
    rw [← row?_bare, same, row?_bare, isRow]
    rfl
  obtain ⟨read, found, sameRow⟩ := Option.map_eq_some_iff.mp rows
  exact ⟨read, .intro reading found (length_eq_of_view sameRow ▸ fits), sameRow⟩

theorem kindAfter_renderRow (position : Position) (values : List (List Piece)) (next : TokenKind) :
    kindAfter (tokens position (Form.renderRow values)) next = .symbol .leftParen := by
  unfold Form.renderRow
  split <;> exact kindAfter_parenthesized _ _ _

/-- Rows of one width are read. -/
theorem reads_tableRows {expr : Rule Expr} {write : Expr → List Piece} {rows : List (List Expr)}
    {width : Nat} (fits : ∀ row ∈ rows, row.length = width)
    (each : ∀ row ∈ rows, ∃ whole : Expr, whole.row? = some row ∧
      ∀ next, BinaryOperator.ofKind? next = none →
        Reads expr Expr.bare (Form.renderRow (row.map write)) next whole.bare) :
    Reads (TableRows expr) (List.map (List.map Expr.bare))
      (listed (rows.map fun row => Form.renderRow (row.map write))) (.symbol .rightBrace)
      (rows.map (List.map Expr.bare)) := by
  have isRow (width? : Option Nat) (within : ∀ own ∈ width?, own = width) : ∀ row ∈ rows, ∀ next,
      next = .symbol .comma ∨ next = .symbol .rightBrace →
        Reads (TableRow expr width?) (List.map Expr.bare) (Form.renderRow (row.map write)) next
          (row.map Expr.bare) := by
    intro row member next either
    obtain ⟨whole, makes, reads⟩ := each row member
    refine reads_tableRow (reads next ?_) makes fun own isOwn => ?_
    · rcases either with rfl | rfl <;> rfl
    · rw [within own isOwn, fits row member]
  intro position
  cases rows with
  | nil => exact ⟨[], .none rfl, rfl⟩
  | cons row rows =>
    -- The rows behind the first are read as wide as it was read.
    obtain ⟨others, readOthers, sameOthers⟩ := reads_commaSeparated (by decide)
      (fun other isOther => isRow (some width) (by simp) other (.tail _ isOther))
      (position.advanceAll (text (Form.renderRow (row.map write))))
    obtain ⟨first, readFirst, sameFirst⟩ := isRow none (by simp) row (.head _) _
      (kindAfter_flatMap_behindComma _ _ _) position
    have length : first.length = width :=
      (length_eq_of_view sameFirst).trans (fits row (.head _))
    refine ⟨first :: others, ?_, ?_⟩
    · rw [List.map_cons, listed, tokens_append]
      refine .some ?_ readFirst (length ▸ readOthers)
      rw [kindAfter_renderRow]
      decide
    · rw [List.map_cons, List.map_cons, sameFirst, sameOthers]

/-! ## Operands -/

section Operands

variable {expr : Nat → Rule Expr} {write : Expr → List Piece} {next : TokenKind}

/-- A token that is an operand by itself. -/
theorem reads_leaf {kind : TokenKind} {form : Form Expr} {spelling : List Char}
    (meaning : kind.isTrivia = false) (stated : kind.leaf? = some form)
    (alone : kind.standsAlone next = true) :
    Reads (Operand expr) Expr.bare [token kind spelling none] next
      (.node (form.map Expr.bare) ⟨0, 0⟩) := by
  intro position
  rw [tokens_token meaning]
  exact ⟨_, .leaf stated alone, Expr.bare_node _ _⟩

/-- A measure or a column, and what its filters make of it. -/
theorem reads_target (literal : Binary64 → List Char) {target seen : Expr} {behind : List Piece}
    (isTarget : target.IsTarget)
    (reads : ∀ found : Expr, found.bare = target.bare →
      Reads (Filters (expr 0) found) Expr.bare behind next seen) :
    Reads (Operand expr) Expr.bare (target.render literal ++ behind) next seen := by
  obtain ⟨form, span⟩ := target
  intro position
  rw [Expr.render_node]
  rcases isTarget with ⟨name, rfl⟩ | ⟨owner, name, rfl⟩
  · obtain ⟨value, reading, same⟩ := reads _ (Expr.bare_withSpan _ _) _
    simp only [Form.map, Form.render, List.singleton_append, tokens_enclosed]
    exact ⟨value, .measure rfl reading, same⟩
  · obtain ⟨value, reading, same⟩ := reads _ (Expr.bare_withSpan _ _) _
    simp only [Form.map, Form.render, List.cons_append, List.nil_append, tokens_enclosed]
    exact ⟨value, .column rfl rfl reading, same⟩

/-- A measure or a column without filters. -/
theorem reads_targetAlone (literal : Binary64 → List Char) {target : Expr}
    (isTarget : target.IsTarget)
    (noParen : isSymbol .leftParen next = false) :
    Reads (Operand expr) Expr.bare (target.render literal) next target.bare := by
  rw [← List.append_nil (target.render literal)]
  exact reads_target literal isTarget fun found same _ => ⟨found, .none noParen, same⟩

/-- A measure or a column with filters. -/
theorem reads_calculate (literal : Binary64 → List Char) {target : Expr}
    (isTarget : target.IsTarget)
    {filters : List Expr} (each : ∀ filter ∈ filters, ReadsInside (expr 0) write filter) :
    Reads (Operand expr) Expr.bare
      (target.render literal ++ Form.renderTuple (filters.map write)) next
      (.node (.calculate target.bare (filters.map Expr.bare)) ⟨0, 0⟩) := by
  refine reads_target literal isTarget fun found same position => ?_
  obtain ⟨⟨read, stop⟩, reading, sameFilters⟩ := reads_arguments each next position
  have sameFilters : read.map Expr.bare = filters.map Expr.bare := sameFilters
  exact ⟨_, .some reading, by rw [Expr.bare_node, Form.map, same, sameFilters]⟩

/-- `((value), (value), ...)` -/
theorem reads_tuple {values : List Expr} (several : 2 ≤ values.length)
    (each : ∀ value ∈ values, ReadsInside (expr 0) write value) :
    Reads (Operand expr) Expr.bare (Form.renderTuple (values.map write)) next
      (.node (.tuple (values.map Expr.bare)) ⟨0, 0⟩) := by
  have items : Reads (Separated (expr 0)) (List.map Expr.bare)
      (listed (values.map (parenthesized ∘ write))) (.symbol .rightParen)
      (values.map Expr.bare) := by
    refine reads_separated (by decide) ?_ fun value isValue next =>
      reads_inside_before_comma (each value isValue) rfl
    rintro rfl
    cases several
  intro position
  rw [Form.renderTuple, List.map_map, parenthesized, tokens_between]
  obtain ⟨read, reading, same⟩ := items _
  have length : read.length = values.length := length_eq_of_view same
  rcases read with _ | ⟨first, _ | ⟨second, others⟩⟩
  · simp at length
    omega
  · simp at length
    omega
  · exact ⟨_, .tuple rfl reading rfl, by rw [Expr.bare_node, Form.map, same]⟩

/-- `{row, row, ...}` -/
theorem reads_table {rows : List (List Expr)} {width : Nat}
    (fits : ∀ row ∈ rows, row.length = width)
    (each : ∀ row ∈ rows, ∃ whole : Expr, whole.row? = some row ∧
      ∀ next, BinaryOperator.ofKind? next = none →
        Reads (expr 0) Expr.bare (Form.renderRow (row.map write)) next whole.bare) :
    Reads (Operand expr) Expr.bare
      (braced (listed (rows.map fun row => Form.renderRow (row.map write)))) next
      (.node (.table (rows.map (List.map Expr.bare))) ⟨0, 0⟩) := by
  intro position
  rw [braced, tokens_between]
  obtain ⟨read, reading, same⟩ := reads_tableRows fits each _
  exact ⟨_, .table rfl reading rfl, by rw [Expr.bare_node, Form.map, same]⟩

/-- `NAME((argument), (argument), ...)` -/
theorem reads_call {name : String} {arguments : List Expr} (named : isCallName name = true)
    (each : ∀ argument ∈ arguments, ReadsInside (expr 0) write argument) :
    Reads (Operand expr) Expr.bare
      (ofWord name.toList :: Form.renderTuple (arguments.map write)) next
      (.node (.call name (arguments.map Expr.bare)) ⟨0, 0⟩) := by
  obtain ⟨kind, isFunction, meaning, written⟩ := exists_ofWord_callName named
  intro position
  rw [written, tokens_token meaning]
  obtain ⟨⟨read, stop⟩, reading, same⟩ := reads_arguments each next _
  have same : read.map Expr.bare = arguments.map Expr.bare := same
  exact ⟨_, .call isFunction reading, by rw [Expr.bare_node, Form.map, same]⟩

/-- `VAR name = (value) ... RETURN (body)` -/
theorem reads_bindings {values : List (String × Expr)} {body : Expr} (some : values ≠ [])
    (named : ∀ part ∈ values, isName part.1 = true)
    (each : ∀ part ∈ values, ReadsInside (expr 0) write part.2)
    (inside : ReadsInside (expr 0) write body)
    (noOperator : BinaryOperator.ofKind? next = none) :
    Reads (Operand expr) Expr.bare
      (values.flatMap (fun part => Form.renderBinding (part.1, write part.2) ++ [space]) ++
        ofKeyword .result :: space :: parenthesized (write body)) next
      (.node (.bindings (values.map fun part => (part.1, part.2.bare)) body.bare) ⟨0, 0⟩) := by
  have items : Reads (Repeated (isKeyword .var) (Binding (expr 0)))
      (List.map fun part => (part.1, part.2.bare))
      (values.flatMap fun part => Form.renderBinding (part.1, write part.2) ++ [space])
      (.keyword .result) (values.map fun part => (part.1, part.2.bare)) := by
    refine reads_repeated rfl (fun _ _ _ _ => rfl) fun part isPart next either position => ?_
    have noOperator : BinaryOperator.ofKind? next = none := by
      rcases either with isVar | rfl
      · rw [isKeyword_iff.mp isVar]
        rfl
      · rfl
    rw [tokens_append_space]
    exact reads_binding (named part isPart) (each part isPart) noOperator position
  obtain ⟨part, parts, rfl⟩ := List.exists_cons_of_ne_nil some
  intro position
  obtain ⟨read, reading, same⟩ := items position
  rw [tokens_append, tokens_ofKeyword, tokens_space]
  obtain ⟨value, isBody, sameBody⟩ := inside next noOperator _
  rw [List.flatMap_cons, Form.renderBinding, List.cons_append, List.cons_append,
    tokens_ofKeyword] at reading ⊢
  exact ⟨_, .bindings rfl reading rfl isBody, by rw [Expr.bare_node, Form.map, same, sameBody]⟩

/-- `DATATABLE("name", TYPE, {{(value), }})` -/
theorem reads_dataTable {columns : List Column} {rows : List (List (Option Expr))}
    (some : columns ≠ []) (fits : ∀ row ∈ rows, row.length = columns.length)
    (each : ∀ row ∈ rows, ∀ cell ∈ row, ∀ value ∈ cell, ReadsInside (expr 0) write value) :
    Reads (Operand expr) Expr.bare
      (ofKeyword .dataTable ::
        parenthesized (columns.flatMap (fun column => column.pieces ++ [space]) ++
          braced (listed (rows.map fun row => Form.renderDataRow (row.map (Option.map write))))))
      next (.node (.dataTable columns (rows.map (List.map (Option.map Expr.bare)))) ⟨0, 0⟩) := by
  have heads : Reads (Repeated (!isSymbol .leftBrace ·) DataColumn) (List.map id)
      (columns.flatMap fun column => column.pieces ++ [space]) (.symbol .leftBrace)
      (columns.map id) := by
    refine reads_repeated rfl (fun _ _ _ _ => rfl) fun column _ next _ position => ?_
    rw [tokens_append_space]
    exact reads_dataColumn column next position
  have items : Reads (SeparatedUnless .rightBrace (DataRow (expr 0) columns.length))
      (List.map (List.map (Option.map Expr.bare)))
      (listed (rows.map fun row => Form.renderDataRow (row.map (Option.map write))))
      (.symbol .rightBrace) (rows.map (List.map (Option.map Expr.bare))) := by
    refine reads_separatedUnless (by decide) (fun _ _ _ _ => ?_) fun row isRow next _ => ?_
    · rw [Form.renderDataRow, kindAfter_braced]
      decide
    · exact reads_dataRow (List.length_pos_iff.mpr some).ne' (fits row isRow) (each row isRow) next
  intro position
  rw [tokens_ofKeyword, parenthesized, tokens_between, tokens_append, braced, tokens_between]
  obtain ⟨read, isHeads, sameHeads⟩ := heads _
  obtain ⟨readRows, isRows, sameRows⟩ := items _
  rw [List.map_id, List.map_id] at sameHeads
  subst sameHeads
  rw [List.append_assoc, List.cons_append, List.append_assoc]
  exact ⟨_, .dataTable rfl rfl isHeads some rfl isRows rfl rfl,
    by rw [Expr.bare_node, Form.map, sameRows]⟩

/-- `-(operand)` -/
theorem reads_unary (operator : UnaryOperator) {operand : Expr}
    (inside : ReadsInside (expr operator.operandLevel) write operand)
    (noOperator : BinaryOperator.ofKind? next = none) :
    Reads (Operand expr) Expr.bare (operator.piece :: parenthesized (write operand)) next
      (.node (.unary operator operand.bare) ⟨0, 0⟩) := by
  obtain ⟨kind, spelling, isSign, meaning, written⟩ : ∃ kind spelling,
      UnaryOperator.ofKind? kind = some operator ∧ kind.isTrivia = false ∧
        operator.piece = token kind spelling none := by
    cases operator <;> exact ⟨_, _, rfl, rfl, rfl⟩
  intro position
  rw [written, tokens_token meaning]
  obtain ⟨read, reading, same⟩ := inside next noOperator _
  exact ⟨_, .unary isSign reading, by rw [Expr.bare_node, Form.map, same]⟩

end Operands

/-- One operator and its right operand, behind which no operator follows. -/
theorem Climbing.joinOne {operand : Rule Expr} {left right : Expr} {sign : Token}
    {operator : BinaryOperator} {used : List Token} {next : TokenKind}
    (joins : BinaryOperator.ofKind? sign.kind = some operator) (reading : operand used right next)
    (noOperator : BinaryOperator.ofKind? next = none) :
    Climbing operand 0 left (sign :: used) (left.join operator right) next := by
  have stops (level : Nat) (last : Expr) : Climbing operand level last [] last next :=
    .done fun operator found => absurd found (by simp [noOperator])
  have joined : Climbing operand 0 left (sign :: (used ++ ([] ++ [])))
      (left.join operator right) next :=
    .step joins (Nat.zero_le _) reading (stops _ _) (stops 0 _)
  rwa [List.append_nil, List.append_nil] at joined

/-- `(left) + (right)` -/
theorem reads_binary {operand : Rule Expr} {write : Expr → List Piece} {next : TokenKind}
    {left right : Expr} (operator : BinaryOperator)
    (isLeft : ∀ next, Reads operand Expr.bare (parenthesized (write left)) next left.bare)
    (isRight : ∀ next, Reads operand Expr.bare (parenthesized (write right)) next right.bare)
    (noOperator : BinaryOperator.ofKind? next = none) :
    Reads (Expression operand 0) Expr.bare
      (parenthesized (write left) ++ space :: operator.piece :: space ::
        parenthesized (write right)) next
      (.node (.binary operator left.bare right.bare) ⟨0, 0⟩) := by
  obtain ⟨kind, spelling, isJoint, meaning, written⟩ : ∃ kind spelling,
      BinaryOperator.ofKind? kind = some operator ∧ kind.isTrivia = false ∧
        operator.piece = token kind spelling none := by
    cases operator <;> exact ⟨_, _, rfl, rfl, rfl⟩
  intro position
  rw [tokens_append, tokens_space, written, tokens_token meaning, tokens_space]
  obtain ⟨first, readLeft, sameLeft⟩ := isLeft kind position
  obtain ⟨second, readRight, sameRight⟩ := isRight next _
  exact ⟨_, .intro readLeft (.joinOne isJoint readRight noOperator),
    by rw [Expr.join, Expr.bare_node, Form.map, sameLeft, sameRight]⟩

end Rule

end DaxScript
