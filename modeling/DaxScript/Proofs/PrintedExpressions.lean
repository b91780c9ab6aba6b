import DaxScript.Proofs.Grammar.PrintedOperand
import DaxScript.Proofs.Grammar.WholeExpression

/-!
# Reading undoes printing

An expression that can be printed, and whose print nests no deeper than expressions may, is read
again from its print, up to spans (`readExpression_print`).

The print of a node is read as the node once the prints of its children are read as them.  They are
read in parentheses, each pair of which is an operand of its own and takes one level, so what the
induction on the tree carries is that an expression is read with any number of levels above its
nesting (`Expr.Printable.reads`).
-/

set_option autoImplicit false

namespace DaxScript

open Piece Rule Production

/-! ## Levels -/

namespace Form

/-- All of some numbers are below a bound when the largest is. -/
theorem forall_lt_of_largest_lt {numbers : List Nat} {bound : Nat}
    (below : largest numbers < bound) : ∀ number ∈ numbers, number < bound := by
  induction numbers with
  | nil => exact fun _ member => absurd member List.not_mem_nil
  | cons first numbers ih =>
    obtain ⟨firstBelow, othersBelow⟩ := Nat.max_lt.mp below
    exact List.forall_mem_cons.mpr ⟨firstBelow, ih othersBelow⟩

theorem forall_lt_of_largest_map_lt {α β : Type} {values : List α} {depth : α → β}
    {count : β → Nat} {bound : Nat}
    (below : largest ((values.map depth).map count) < bound) :
    ∀ value ∈ values, count (depth value) < bound := by
  rw [List.map_map] at below
  exact List.forall_mem_map.mp (forall_lt_of_largest_lt below)

end Form

/-- What is read with some levels is read in parentheses with one level more. -/
theorem readsInside_of_reads {write : Expr → List Piece} {value : Expr} {nesting levels : Nat}
    (reads : ∀ {levels : Nat}, nesting < levels →
      Reads (Expression (operandRule levels) 0) Expr.bare (write value) (.symbol .rightParen)
        value.bare)
    (few : nesting + 1 < levels) (level : Nat) :
    ReadsInside (Expression (operandRule levels) level) write value := by
  obtain ⟨levels, rfl⟩ : ∃ fewer, levels = fewer + 1 := Nat.exists_eq_add_one_of_ne_zero (by omega)
  intro next noOperator
  exact reads_expression (reads_group (reads (by omega)) next) noOperator level

namespace Expr

/-- What a row of a table constructor is read from. -/
def ofRow : List Expr → Expr
  | [value] => value
  | values => node (.tuple values) ⟨0, 0⟩

theorem row?_ofRow {row : List Expr}
    (alone : ∀ value, row = [value] →
      (∀ values, value.form ≠ .tuple values) ∧ ∀ inner, value.form ≠ .table inner) :
    (ofRow row).row? = some row := by
  unfold ofRow
  split
  · next value =>
    obtain ⟨noTuple, noTable⟩ := alone value rfl
    unfold row?
    split
    · next values same => exact absurd same (noTuple values)
    · next inner same => exact absurd same (noTable inner)
    · rfl
  · rfl

end Expr

/-- The rows of a table constructor are read.  The values of a row of several are one level
deeper than the only value of a row. -/
theorem reads_rows {literal : Binary64 → List Char} {levels : Nat} {rows : List (List Expr)}
    (wellShaped : (Form.table rows).WellShaped)
    (few : ((Form.table rows).map Expr.nesting).nesting < levels + 1)
    (inside : ∀ row ∈ rows, ∀ value ∈ row, ∀ {levels : Nat}, value.nesting + 1 < levels →
      ∀ level, ReadsInside (Expression (operandRule levels) level) (Expr.render literal) value) :
    ∀ row ∈ rows, ∃ whole : Expr, whole.row? = some row ∧
      ∀ next, BinaryOperator.ofKind? next = none →
        Reads (Expression (operandRule levels) 0) Expr.bare
          (Form.renderRow (row.map (Expr.render literal))) next whole.bare := by
  obtain ⟨⟨width, wide, fits⟩, alone⟩ := wellShaped
  have deeper := Form.forall_lt_of_largest_map_lt few
  intro row isRow
  have makes : (Expr.ofRow row).row? = some row :=
    Expr.row?_ofRow fun value same => alone value (same ▸ isRow)
  refine ⟨Expr.ofRow row, makes, fun next noOperator => ?_⟩
  have below := deeper row isRow
  have isInside := inside row isRow
  match row, fits row isRow with
  | [], empty => exact absurd empty.symm (by simp; omega)
  | [value], _ => exact isInside value (.head _) (Nat.lt_of_succ_lt_succ below) 0 next noOperator
  | first :: second :: others, _ =>
    have below : Form.largest (((first :: second :: others).map Expr.nesting).map (· + 3)) <
        levels + 1 := below
    have fewer (value : Expr) (isValue : value ∈ first :: second :: others) :
        value.nesting + 2 < levels :=
      Nat.lt_of_succ_lt_succ (Form.forall_lt_of_largest_map_lt below value isValue)
    obtain ⟨levels, rfl⟩ : ∃ fewer, levels = fewer + 1 :=
      Nat.exists_eq_add_one_of_ne_zero (Nat.ne_zero_of_lt (fewer first (.head _)))
    have tuple : Reads (operandRule (levels + 1)) Expr.bare
        (Form.renderTuple ((first :: second :: others).map (Expr.render literal))) next
        (.node (.tuple ((first :: second :: others).map Expr.bare)) ⟨0, 0⟩) :=
      reads_tuple (by simp) fun value isValue =>
        isInside value isValue (Nat.lt_of_succ_lt_succ (fewer value isValue)) 0
    have whole : (Expr.ofRow (first :: second :: others)).bare =
        .node (.tuple ((first :: second :: others).map Expr.bare)) ⟨0, 0⟩ :=
      Expr.bare_node _ _
    rw [whole]
    exact reads_expression tuple noOperator 0

namespace Expr.Printable

/-- **What is printed for an expression is read as it**, with any number of levels above its
nesting, where nothing behind goes on with it. -/
theorem reads {literal : Binary64 → List Char} {expr : Expr} (printable : expr.Printable literal) :
    ∀ {levels : Nat}, expr.nesting < levels → ∀ {next : TokenKind},
      isBracketName next = false → isSymbol .leftParen next = false →
      BinaryOperator.ofKind? next = none →
      Reads (Expression (operandRule levels) 0) Expr.bare (expr.render literal) next expr.bare := by
  induction printable with
  | @node form span spellable wellShaped _ ih =>
    intro levels few next noBracket noParen noOperator
    -- The node takes one level, and the parentheses around a child take another.
    obtain ⟨levels, rfl⟩ : ∃ fewer, levels = fewer + 1 :=
      Nat.exists_eq_add_one_of_ne_zero (by omega)
    have inside {child : Expr} (isChild : child ∈ form.children) {levels : Nat}
        (fewer : child.nesting + 1 < levels) (level : Nat) :
        ReadsInside (Expression (operandRule levels) level) (Expr.render literal) child :=
      readsInside_of_reads (fun own => ih child isChild own rfl rfl rfl) fewer level
    rw [Expr.nesting_node] at few
    rw [Expr.render_node, Expr.bare_node]
    -- All forms but the binary operators are operands.
    have whole {seen : Expr} (reads : Reads (operandRule (levels + 1)) Expr.bare
        ((form.map (Expr.render literal)).render literal) next seen) :
        Reads (Expression (operandRule (levels + 1)) 0) Expr.bare
          ((form.map (Expr.render literal)).render literal) next seen :=
      reads_expression reads noOperator 0
    cases form with
    | number value => exact whole (reads_leaf rfl rfl rfl)
    | text content => exact whole (reads_leaf rfl rfl rfl)
    | boolean value =>
      cases value <;>
        exact whole (reads_leaf rfl rfl (by simp [TokenKind.standsAlone, noBracket, noParen]))
    | blank =>
      exact whole (reads_leaf rfl rfl (by simp [TokenKind.standsAlone, noBracket, noParen]))
    | tableName name =>
      have alone : (TokenKind.quotedName name).standsAlone next = true := by
        simp [TokenKind.standsAlone, noBracket]
      exact whole (reads_leaf rfl rfl alone)
    | measure name =>
      rw [← Expr.render_node literal _ span, ← Expr.bare_node _ span]
      exact reads_expression (reads_targetAlone literal (.inl ⟨name, rfl⟩) noParen) noOperator 0
    | column owner name =>
      rw [← Expr.render_node literal _ span, ← Expr.bare_node _ span]
      exact reads_expression (reads_targetAlone literal (.inr ⟨owner, name, rfl⟩) noParen)
        noOperator 0
    | tuple values =>
      have deeper := Form.forall_lt_of_largest_map_lt few
      exact whole (reads_tuple wellShaped fun value isValue =>
        inside isValue (Nat.lt_of_succ_lt_succ (deeper value isValue)) 0)
    | table rows =>
      have isRow := reads_rows wellShaped few fun row isRow value isValue =>
        inside (List.mem_flatten.mpr ⟨row, isRow, isValue⟩)
      obtain ⟨⟨width, -, fits⟩, -⟩ := wellShaped
      refine whole ?_
      simp only [Form.map, Form.render, List.map_map]
      exact reads_table fits isRow
    | call name arguments =>
      have deeper := Form.forall_lt_of_largest_map_lt few
      exact whole (reads_call spellable fun argument isArgument =>
        inside isArgument (Nat.lt_of_succ_lt_succ (deeper argument isArgument)) 0)
    | calculate target filters =>
      have deeper := Form.forall_lt_of_largest_map_lt (Nat.max_lt.mp few).2
      exact whole (reads_calculate literal wellShaped fun filter isFilter =>
        inside (.tail _ isFilter) (Nat.lt_of_succ_lt_succ (deeper filter isFilter)) 0)
    | bindings values body =>
      obtain ⟨fewValues, fewBody⟩ := Nat.max_lt.mp few
      have deeper := Form.forall_lt_of_largest_map_lt fewValues
      have isValue {part : String × Expr} (isPart : part ∈ values) :
          part.2 ∈ (Form.bindings values body).children :=
        List.mem_append_left _ (List.mem_map.mpr ⟨part, isPart, rfl⟩)
      have isBody : body ∈ (Form.bindings values body).children :=
        List.mem_append_right _ (List.mem_singleton_self _)
      refine whole ?_
      simp only [Form.map, Form.render, List.flatMap_map]
      exact reads_bindings wellShaped spellable (fun part isPart =>
        inside (isValue isPart) (Nat.lt_of_succ_lt_succ (deeper part isPart)) 0)
        (inside isBody (Nat.lt_of_succ_lt_succ fewBody) 0) noOperator
    | dataTable columns rows =>
      obtain ⟨wide, fits⟩ := wellShaped
      have deeper := Form.forall_lt_of_largest_lt few
      refine whole ?_
      simp only [Form.map, Form.render, List.map_map]
      refine reads_dataTable wide fits fun row isRow cell isCell value isValue => ?_
      refine inside ?_ (Nat.lt_of_succ_lt_succ (deeper _ (List.mem_map.mpr
        ⟨some value.nesting, List.mem_flatten.mpr ⟨_, List.mem_map_of_mem isRow,
          List.mem_map.mpr ⟨cell, isCell, congrArg _ isValue⟩⟩, rfl⟩))) 0
      exact List.mem_filterMap.mpr ⟨cell, List.mem_flatten.mpr ⟨row, isRow, isCell⟩, isValue⟩
    | unary operator operand =>
      exact whole (reads_unary operator
        (inside (.head _) (Nat.lt_of_succ_lt_succ few) _) noOperator)
    | binary operator left right =>
      obtain ⟨fewLeft, fewRight⟩ := Nat.max_lt.mp (Nat.lt_of_succ_lt_succ few)
      exact reads_binary operator
        (reads_group (ih left (.head _) fewLeft rfl rfl rfl))
        (reads_group (ih right (.tail _ (.head _)) fewRight rfl rfl rfl)) noOperator

end Expr.Printable

/-- **Reading undoes printing**, up to spans, unless the print is nested too deeply. -/
theorem readExpression_print {literal : Binary64 → List Char} {expr : Expr}
    (printable : expr.Printable literal) (nested : expr.nesting ≤ 127) :
    ∃ read, readExpression (expr.print literal) = .ok read ∧ read.bare = expr.bare := by
  have few : expr.nesting < maxNesting := Nat.lt_succ_of_le nested
  have reads : Reads (ExpressionOfLevel 0) Expr.bare (expr.render literal) .endOfInput expr.bare :=
    printable.reads few rfl rfl rfl
  obtain ⟨read, reading, same⟩ := reads .start
  have atEnd : Separated [] := fun _ isFirst => by cases isFirst
  exact ⟨read, readExpression_of_pieces (String.toList_ofList ..) (printable.tidy.fitting atEnd)
    printable.tidy.sound reading, same⟩

/-- Quotes within names and texts, a cell that is left out, and a filter on a column.  The rows of
the table are printed as `{{(TRUE()), }}`. -/
theorem readExpression_print_variable :
    let literal (value : Binary64) : List Char := value.render.toList
    let root (form : Form Expr) : Expr := .node form ⟨0, 0⟩
    let filter := root (.unary .negate (root (.tableName "rate")))
    let net := root (.calculate (root (.column "It's" "Net")) [filter])
    let data := root (.dataTable [⟨"say \"hi\"", .string⟩, ⟨"count", .integer⟩]
      [[some (root (.call "TRUE" [])), none]])
    let expr := root (.bindings [("rate", root (.number (.ofRatio 3 2)))]
      (root (.binary .multiply net data)))
    expr.Printable literal ∧ expr.nesting ≤ 127 ∧
      expr.print literal =
        "VAR rate = (1.5) RETURN (('It''s'[Net]((-('rate')))) * (" ++
          "DATATABLE(\"say \"\"hi\"\"\", STRING, \"count\", INTEGER, " ++
            "\x7b\x7b(TRUE()), \x7d\x7d)))" ∧
      ∃ read, readExpression (expr.print literal) = .ok read ∧ read.bare = expr.bare := by
  intro literal root filter net data expr
  have leaf {form : Form Expr} (spellable : form.Spellable literal) (wellShaped : form.WellShaped)
      (noChildren : form.children = []) : (root form).Printable literal :=
    .node spellable wellShaped (by simp [noChildren])
  have pair {first second : Expr} (isFirst : first.Printable literal)
      (isSecond : second.Printable literal) :
      ∀ child ∈ [first, second], child.Printable literal :=
    List.forall_mem_cons.mpr ⟨isFirst, List.forall_mem_singleton.mpr isSecond⟩
  have isFilter : filter.Printable literal :=
    .node trivial trivial (List.forall_mem_singleton.mpr (leaf trivial trivial rfl))
  have noBracket : ']' ∉ "Net".toList := by decide
  have isNet : net.Printable literal :=
    .node trivial (.inr ⟨"It's", "Net", rfl⟩) (pair (leaf noBracket trivial rfl) isFilter)
  have isCallName : isCallName "TRUE" = true := rfl
  have isData : data.Printable literal :=
    .node trivial ⟨List.cons_ne_nil _ _, List.forall_mem_singleton.mpr rfl⟩
      (List.forall_mem_singleton.mpr (leaf isCallName trivial rfl))
  have isName : isName "rate" = true := rfl
  have isNumeral : Numeral.value? (literal (.ofRatio 3 2)) = some (.ofRatio 3 2) := by
    decide +kernel
  have isBody : (root (.binary .multiply net data)).Printable literal :=
    .node trivial trivial (pair isNet isData)
  have printable : expr.Printable literal :=
    .node (List.forall_mem_singleton.mpr isName) (List.cons_ne_nil _ _)
      (pair (leaf isNumeral trivial rfl) isBody)
  have nested : expr.nesting ≤ 127 := by decide +kernel
  exact ⟨printable, nested, by decide +kernel, readExpression_print printable nested⟩

end DaxScript
