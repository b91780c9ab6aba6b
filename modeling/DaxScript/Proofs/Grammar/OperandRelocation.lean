import DaxScript.Proofs.Grammar.Relocation

/-!
# Reading relocated expressions

The productions of operands are natural when those of the expressions inside are, and so all
productions of expressions are (`Exchange.natural_expressionOfLevel`).
-/

set_option autoImplicit false

namespace DaxScript

open Production

namespace Relocation

variable {place : Relocation}

theorem expr_node (place : Relocation) (form : Form Expr) (span : Span) :
    place.expr (.node form span) = .node (form.map place.expr) (place.span span) :=
  Expr.moved_node place.offset form span

@[simp] theorem span_expr (value : Expr) : (place.expr value).span = place.span value.span :=
  Expr.span_moved place.offset value

@[simp] theorem form_expr (value : Expr) : (place.expr value).form = value.form.map place.expr :=
  Expr.form_moved place.offset value

theorem withSpan_expr (value : Expr) (span : Span) :
    place.expr (value.withSpan span) = (place.expr value).withSpan (place.span span) := by
  rw [Expr.withSpan, Expr.withSpan, expr_node, form_expr]

theorem ofGroup_map (place : Relocation) (values : List Expr) (span : Span) :
    ofGroup (place.span span) (values.map place.expr) = place.expr (ofGroup span values) := by
  cases values with
  | nil => exact (expr_node _ (.tuple []) span).symm
  | cons first others =>
    cases others with
    | nil => exact (withSpan_expr first span).symm
    | cons second others => exact (expr_node _ (.tuple (first :: second :: others)) span).symm

/-- A row goes along with its element. -/
theorem row?_expr (value : Expr) :
    (place.expr value).row? = value.row?.map (List.map place.expr) := by
  obtain ⟨form, span⟩ := value
  unfold Expr.row?
  rw [form_expr]
  cases form <;> rfl

theorem join_expr (left : Expr) (operator : BinaryOperator) (right : Expr) :
    place.expr (left.join operator right) = (place.expr left).join operator (place.expr right) := by
  rw [Expr.join, expr_node, span_cover, Expr.join, span_expr, span_expr]
  rfl

end Relocation

namespace Exchange

open Relocation

variable {exchange : Exchange}

section Operands

variable {expr : ExprProduction}
  (natural : ∀ level, exchange.Natural exchange.expr (expr level)) {tokens others : List Token}
  (inStep : exchange.InStep tokens others)
include natural

/-! ## Names and calls -/

theorem natural_arguments :
    exchange.Natural (fun values => (values.1.map exchange.expr, exchange.offset values.2))
      (arguments expr) := by
  intro tokens others inStep
  refine .bind (exchange.natural_symbol (by decide) inStep) fun opening _ _ inStep => ?_
  refine .bind (natural_separatedUnless (natural 0) _ inStep) fun values _ _ inStep => ?_
  refine .bind (exchange.natural_symbol (by decide) inStep) fun closing _ _ inStep => ?_
  exact .ok rfl inStep

include inStep

theorem moves_filtersOf (target : Expr) :
    exchange.Moves exchange.expr (filtersOf expr target tokens)
      (filtersOf expr (exchange.expr target) others) := by
  refine .ite (by rw [inStep.nextKind_eq]) (fun _ => ?_) fun _ => .ok rfl inStep
  refine .bind (natural_arguments natural inStep) fun filters _ _ inStep => ?_
  refine .ok ?_ inStep
  simp [expr_node, Form.map, span, Span.moved]

theorem moves_columnOf (table : String) (origin : Span) :
    exchange.Moves exchange.expr (columnOf expr table origin tokens)
      (columnOf expr table (exchange.span origin) others) := by
  have nothing := (expr_node exchange.toRelocation (.tableName table) origin).symm
  rcases inStep.cases with ⟨rfl, rfl⟩ | ⟨column, rest, rest', rfl, rfl, onward⟩
  · exact .ok nothing inStep
  · obtain ⟨kind, columnSpan, position, spelling⟩ := column
    cases kind with
    | bracketName name =>
      have filters := moves_filtersOf natural (onward (by simp))
        (.node (.column table name) (origin.cover columnSpan))
      rw [expr_node, span_cover] at filters
      exact .bind filters fun whole _ _ inStep => .ok rfl inStep
    | _ => exact .ok nothing inStep

theorem moves_named (name : String) (token : Token) :
    exchange.Moves exchange.expr (named expr name token tokens)
      (named expr name (exchange.token token) others) :=
  .bind (moves_columnOf natural inStep name token.span) fun _ _ _ inStep => .ok rfl inStep

theorem moves_called (name : String) (token : Token) :
    exchange.Moves exchange.expr (called expr name token tokens)
      (called expr name (exchange.token token) others) := by
  refine .bind (natural_arguments natural inStep) fun values _ _ inStep => ?_
  exact .ok (expr_node _ (.call name values.1) ⟨token.span.start, values.2⟩).symm inStep

theorem moves_measured (name : String) (token : Token) :
    exchange.Moves exchange.expr (measured expr name token tokens)
      (measured expr name (exchange.token token) others) := by
  have filters := moves_filtersOf natural inStep (.node (.measure name) token.span)
  rw [expr_node] at filters
  exact .bind filters fun _ _ _ inStep => .ok rfl inStep

/-! ## Signs and variables -/

theorem moves_signed (operator : UnaryOperator) (token : Token) :
    exchange.Moves exchange.expr (signed expr operator token tokens)
      (signed expr operator (exchange.token token) others) := by
  refine .bind (natural operator.operandLevel inStep) fun operand _ _ inStep => ?_
  refine .ok ?_ inStep
  have whole := expr_node exchange.toRelocation (.unary operator operand)
    (token.span.cover operand.span)
  rw [span_cover, ← span_expr] at whole
  exact whole.symm

omit natural inStep in
theorem natural_variableName : exchange.Natural id variableName := by
  intro tokens others inStep
  rcases inStep.cases with ⟨rfl, rfl⟩ | ⟨⟨kind, span, position, spelling⟩, rest, rest', rfl, rfl,
    onward⟩
  · exact .error (inStep.expected _)
  · cases kind with
    | identifier => exact .ok rfl (onward (by simp))
    | _ => exact .error (inStep.expected _)

omit inStep in
theorem natural_binding :
    exchange.Natural (fun part => (part.1, exchange.expr part.2)) (binding expr) := by
  intro tokens others inStep
  refine .bind (exchange.natural_keyword _ inStep) fun opening _ _ inStep => ?_
  refine .bind (natural_variableName inStep) fun name _ _ inStep => ?_
  refine .bind (exchange.natural_symbol (by decide) inStep) fun equals _ _ inStep => ?_
  refine .bind (natural 0 inStep) fun value _ _ inStep => ?_
  exact .ok rfl inStep

theorem moves_bindingsFrom (start : Nat) :
    exchange.Moves exchange.expr (bindingsFrom expr start tokens)
      (bindingsFrom expr (exchange.offset start) others) := by
  refine .bind (natural_manyWhile (natural_binding natural) _ inStep) fun values _ _ inStep => ?_
  refine .bind (exchange.natural_keyword _ inStep) fun result _ _ inStep => ?_
  refine .bind (natural 0 inStep) fun body _ _ inStep => ?_
  refine .ok ?_ inStep
  simp [expr_node, Form.map, span, Span.moved]

omit inStep

/-! ## Parentheses and braces -/

theorem natural_group : exchange.Natural exchange.expr (group expr) := by
  intro tokens others inStep
  refine .bind (exchange.natural_symbol (by decide) inStep) fun opening _ _ inStep => ?_
  refine .bind (natural_separated (natural 0) inStep) fun values _ _ inStep => ?_
  refine .bind (exchange.natural_symbol (by decide) inStep) fun closing _ _ inStep => ?_
  refine .ok ?_ inStep
  have whole := ofGroup_map exchange.toRelocation values (opening.span.cover closing.span)
  rw [span_cover] at whole
  exact whole

theorem natural_tableRow (width? : Option Nat) :
    exchange.Natural (List.map exchange.expr) (tableRow expr width?) := by
  intro tokens others inStep
  rw [tableRow_eq, tableRow_eq]
  refine .bind (natural 0 inStep) fun element _ _ left => ?_
  simp only [rowOutcome, row?_expr]
  cases element.row? with
  | none => exact .error (inStep.refuses left _)
  | some row =>
    refine .ite (by simp) (fun _ => .ok rfl left) fun _ => .error ?_
    simpa using inStep.refuses left _

theorem natural_tableRows :
    exchange.Natural (List.map (List.map exchange.expr)) (tableRows expr) := by
  intro tokens others inStep
  refine .ite (by rw [inStep.nextKind_eq]) (fun _ => .ok rfl inStep) fun _ => ?_
  refine .bind (natural_tableRow natural none inStep) fun first _ _ inStep => ?_
  have further := natural_manyWhile
    (natural_afterComma (natural_weaken (natural_tableRow natural (some first.length))))
    (isSymbol .comma) inStep
  simp only [List.length_map]
  exact .bind further fun _ _ _ inStep => .ok rfl inStep

theorem natural_table : exchange.Natural exchange.expr (table expr) := by
  intro tokens others inStep
  refine .bind (exchange.natural_symbol (by decide) inStep) fun opening _ _ inStep => ?_
  refine .bind (natural_tableRows natural inStep) fun rows _ _ inStep => ?_
  refine .bind (exchange.natural_symbol (by decide) inStep) fun closing _ _ inStep => ?_
  refine .ok ?_ inStep
  have whole := expr_node exchange.toRelocation (.table rows) (opening.span.cover closing.span)
  rw [span_cover] at whole
  exact whole.symm

/-! ## Tables of data -/

omit natural in
theorem natural_columnName : exchange.Natural id columnName := by
  intro tokens others inStep
  rcases inStep.cases with ⟨rfl, rfl⟩ | ⟨⟨kind, span, position, spelling⟩, rest, rest', rfl, rfl,
    onward⟩
  · exact .error (inStep.expected _)
  · cases kind with
    | text => exact .ok rfl (onward (by simp))
    | _ => exact .error (inStep.expected _)

omit natural in
theorem natural_columnType : exchange.Natural id columnType := by
  intro tokens others inStep
  rcases inStep.cases with ⟨rfl, rfl⟩ | ⟨⟨kind, span, position, spelling⟩, rest, rest', rfl, rfl,
    onward⟩
  · exact .error (inStep.reject _)
  · have unknown := inStep.reject (.unknownColumnType spelling)
    cases kind with
    | identifier word =>
      simp only [columnType, token]
      cases ColumnType.ofWord? word with
      | some => exact .ok rfl (onward (by simp))
      | none => exact .error unknown
    | _ => exact .error unknown

omit natural in
theorem natural_dataColumn : exchange.Natural id dataColumn := by
  intro tokens others inStep
  refine .bind (natural_columnName inStep) fun name _ _ inStep => ?_
  refine .bind (exchange.natural_symbol (by decide) inStep) fun between _ _ inStep => ?_
  refine .bind (natural_columnType inStep) fun type _ _ inStep => ?_
  refine .bind (exchange.natural_symbol (by decide) inStep) fun after _ _ inStep => ?_
  exact .ok rfl inStep

theorem natural_dataCell : exchange.Natural (Option.map exchange.expr) (dataCell expr) := by
  intro tokens others inStep
  refine .ite (by rw [inStep.nextKind_eq]) (fun _ => .ok rfl inStep) fun _ => ?_
  refine .bind (natural 0 inStep) fun value _ _ inStep => ?_
  exact .ok rfl inStep

theorem natural_dataRow (width : Nat) :
    exchange.Natural (List.map (Option.map exchange.expr)) (dataRow expr width) := by
  intro tokens others inStep
  refine .bind (exchange.natural_symbol (by decide) inStep) fun opening _ _ left => ?_
  refine .bind (natural_separated (natural_dataCell natural) left) fun cells _ _ left => ?_
  refine .bind (exchange.natural_symbol (by decide) left) fun closing _ _ left => ?_
  refine .ite (by simp) (fun _ => .error ?_) fun _ => .ok rfl left
  obtain ⟨issue, position, unread, _, placed⟩ :=
    inStep.refuses left (.dataRowWidth cells.length width)
  exact ⟨by simp, position, unread, by simp only at unread ⊢; omega, placed⟩

theorem natural_dataTable : exchange.Natural exchange.expr (dataTable expr) := by
  intro tokens others inStep
  refine .bind (exchange.natural_keyword _ inStep) fun word _ _ inStep => ?_
  refine .bind (exchange.natural_symbol (by decide) inStep) fun outer _ _ inStep => ?_
  have heads : exchange.Natural (List.map id) (manyWhile (!isSymbol .leftBrace ·) dataColumn) :=
    natural_manyWhile natural_dataColumn _
  rw [List.map_id_fun] at heads
  refine .bind (heads inStep) fun columns _ _ inStep => ?_
  refine .ite Iff.rfl (fun _ => .error (inStep.expected _)) fun _ => ?_
  refine .bind (exchange.natural_symbol (by decide) inStep) fun opening _ _ inStep => ?_
  refine .bind (natural_separatedUnless (natural_dataRow natural _) _ inStep)
    fun rows _ _ inStep => ?_
  refine .bind (exchange.natural_symbol (by decide) inStep) fun closing _ _ inStep => ?_
  refine .bind (exchange.natural_symbol (by decide) inStep) fun last _ _ inStep => ?_
  refine .ok ?_ inStep
  have whole := expr_node exchange.toRelocation (.dataTable columns rows)
    (word.span.cover last.span)
  rw [span_cover] at whole
  exact whole.symm

/-! ## The choice between them -/

omit natural in
include inStep in
theorem moves_leaf (form : Form Expr) (childless : form.map exchange.expr = form) (token : Token) :
    exchange.Moves exchange.expr (leaf form token tokens)
      (leaf form (exchange.token token) others) := by
  refine .ok ?_ inStep
  have whole := expr_node exchange.toRelocation form token.span
  rw [childless] at whole
  exact whole.symm

omit natural in
include inStep in
theorem InStep.noOperand : exchange.Refuses (Production.noOperand tokens)
    (Production.noOperand others) := by
  obtain ⟨issue, position, unread, _, placed⟩ := inStep.expected .expression
  exact ⟨issue, position, unread, inStep.length_pred_eq, placed⟩

include inStep in
theorem moves_keywordOperand (word : Keyword) (token : Token) :
    exchange.Moves exchange.expr (keywordOperand expr word token tokens)
      (keywordOperand expr word (exchange.token token) others) := by
  refine .ite (by rw [inStep.nextKind_eq])
    (fun _ => moves_named natural inStep token.spelling token) fun _ => ?_
  have noneSuch := (InStep.step token inStep).noOperand
  have sameNext : isSymbol .leftParen (nextKind others) = true ↔
      isSymbol .leftParen (nextKind tokens) = true := by
    rw [inStep.nextKind_eq]
  cases word with
  | var => exact moves_bindingsFrom natural (.step token inStep) token.span.start
  | logicalNot => exact moves_signed natural inStep .logicalNot token
  | dataTable => exact natural_dataTable natural (.step token inStep)
  | trueValue | falseValue | blank =>
    exact .ite sameNext (fun _ => moves_called natural inStep _ token) fun _ =>
      moves_leaf inStep _ rfl token
  | logicalAnd | logicalOr =>
    exact .ite sameNext (fun _ => moves_called natural inStep _ token) fun _ => .error noneSuch
  | _ => exact .error noneSuch

theorem natural_operandOf : exchange.Natural exchange.expr (operandOf expr) := by
  intro tokens others inStep
  rcases inStep.cases with ⟨rfl, rfl⟩ | ⟨⟨kind, span, position, spelling⟩, rest, rest', rfl, rfl,
    onward⟩
  · exact .error inStep.noOperand
  · have noneSuch := inStep.noOperand
    cases kind with
    | keyword word => exact moves_keywordOperand natural (onward (by simp)) word _
    | number | text => exact moves_leaf (onward (by simp)) _ rfl _
    | identifier name =>
      have left := onward (by simp)
      exact .ite (by rw [left.nextKind_eq]) (fun _ => moves_called natural left name _) fun _ =>
        moves_named natural left name _
    | quotedName name => exact moves_named natural (onward (by simp)) name _
    | bracketName name => exact moves_measured natural (onward (by simp)) name _
    | symbol sign =>
      cases sign with
      | minus | plus => exact moves_signed natural (onward (by simp)) _ _
      | leftParen => exact natural_group natural inStep
      | leftBrace => exact natural_table natural inStep
      | _ => exact .error noneSuch
    | _ => exact .error noneSuch

end Operands

/-! ## Climbing -/

section Climbing

variable {operand : Production Expr 1} (natural : exchange.Natural exchange.expr operand)
include natural

theorem moves_climbFrom (level : Nat) (left : Expr) {tokens others : List Token}
    (inStep : exchange.InStep tokens others) :
    exchange.Moves exchange.expr (climbFrom operand level left tokens)
      (climbFrom operand level (exchange.expr left) others) := by
  induction counted : tokens.length using Nat.strongRecOn
    generalizing level left tokens others with
  | ind length ih =>
    rcases inStep.cases with ⟨rfl, rfl⟩ | ⟨token, rest, rest', rfl, rfl, onward⟩
    · rw [climbFrom, climbFrom]
      exact .ok rfl inStep
    · rw [climbFrom, climbFrom, kind_token]
      cases joins : BinaryOperator.ofKind? token.kind with
      | none => exact .ok rfl inStep
      | some operator =>
        refine .ite Iff.rfl (fun _ => .ok rfl inStep) fun _ => ?_
        have noSemicolon : token.kind ≠ .symbol .semicolon := by
          intro isSign
          rw [isSign] at joins
          cases joins
        rw [List.length_cons] at counted
        refine .bind (natural (onward noSemicolon)) @fun after _ first fits _ inStep => ?_
        have shorter : after.length < length := by omega
        refine .bind (ih _ shorter _ first inStep rfl) @fun after' _ right fits _ inStep => ?_
        have shorter' : after'.length < length := by
          simp only at fits
          omega
        have whole := ih _ shorter' level (left.join operator right) inStep rfl
        rw [join_expr] at whole
        exact .bind whole fun _ _ _ inStep => .ok rfl inStep

theorem natural_climb (level : Nat) : exchange.Natural exchange.expr (climb operand level) := by
  intro tokens others inStep
  refine .bind (natural inStep) fun first _ _ inStep => ?_
  refine .bind (moves_climbFrom natural level first inStep) fun whole _ _ inStep => ?_
  exact .ok rfl inStep

end Climbing

theorem natural_operand (levels : Nat) : exchange.Natural exchange.expr (operand levels) := by
  induction levels with
  | zero => exact fun _ _ inStep => .error (inStep.refuse _)
  | succ levels ih => exact natural_operandOf fun level => natural_climb ih level

/-- **Expressions are read the same wherever they stand**, and whatever stands behind a semicolon
behind them. -/
theorem natural_expressionOfLevel (level : Nat) :
    exchange.Natural exchange.expr (expressionOfLevel level) :=
  natural_climb (natural_operand maxNesting) level

end Exchange

/-- **Expressions are read the same wherever they stand**, however many levels they may open. -/
theorem Relocation.natural_climb {place : Relocation} (levels level : Nat) :
    place.Natural place.expr (climb (operand levels) level) :=
  natural_of_toEnd (Exchange.natural_climb (Exchange.natural_operand levels) level)

theorem Relocation.natural_expressionOfLevel {place : Relocation} (level : Nat) :
    place.Natural place.expr (expressionOfLevel level) :=
  natural_climb maxNesting level

end DaxScript
