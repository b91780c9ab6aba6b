import DaxScript.Proofs.Grammar.Shape
import DaxScript.Proofs.PrintedExpressions

/-!
# Well-formed expressions

Every node of an accepted expression has a form that can be read and calls and binds proper names
(`readExpression_wellFormed`), so a consumer may look up the cells of a table by row and column.

One thing is not promised by the form of a table.  An element in a table constructor is refused if
it is a table, but the values of a tuple are not looked at when it is taken for a row.  So a table
stands in no row of one cell, and in rows of every other width it may
(`flatRows_iff_width_le_one`).
-/

set_option autoImplicit false

namespace DaxScript

open Piece Rule Production

/-- **Accepted expressions are well-formed.**  Tuples have two values or more, the rows of a table
are of one width that is not zero, filters stand behind measures and columns only, a block binds
some variables, and data has columns and rows that are as wide.  Functions are called by words that
are no keywords or by `TRUE`, `FALSE`, `BLANK`, `AND` and `OR`, and variables are bound to words
that are no keywords. -/
theorem readExpression_wellFormed {source : String} {expr : Expr}
    (accepted : readExpression source = .ok expr) :
    ∀ depth node, (depth, node) ∈ expr.subtrees 0 → node.form.WellShaped ∧ node.form.Named := by
  intro depth node member
  have shaped := shaped_of_mem_subtrees accepted member
  exact ⟨shaped.wellShaped, shaped.named⟩

/-- In `VAR x = AND() RETURN {(x, x)}` a keyword is called and a tuple is taken for a row. -/
theorem readExpression_wellFormed_row :
    let row := [Expr.node (.tableName "x") ⟨23, 24⟩, .node (.tableName "x") ⟨26, 27⟩]
    let expr := Expr.node (.bindings [("x", .node (.call "AND" []) ⟨8, 13⟩)]
      (.node (.table [row]) ⟨21, 29⟩)) ⟨0, 29⟩
    readExpression "VAR x = AND() RETURN \x7b(x, x)\x7d" = .ok expr ∧
      ∀ depth node, (depth, node) ∈ expr.subtrees 0 → node.form.WellShaped ∧ node.form.Named := by
  intro row expr
  have accepted : readExpression "VAR x = AND() RETURN \x7b(x, x)\x7d" = .ok expr := by
    cbv
  exact ⟨accepted, readExpression_wellFormed accepted⟩

/-! ## Tables in tables -/

/-- If the node is a table then no row of the given width has a table in it. -/
def Form.FlatRows (width : Nat) : Form Expr → Prop
  | .table rows =>
    ∀ row ∈ rows, row.length = width → ∀ cell ∈ row, ∀ inner, cell.form ≠ .table inner
  | _ => True

theorem Form.WellShaped.flatRows {form : Form Expr} {width : Nat} (wellShaped : form.WellShaped)
    (narrow : width ≤ 1) : form.FlatRows width := by
  cases form with
  | table rows =>
    intro row isRow isWidth cell isCell
    obtain ⟨_, alone⟩ := wellShaped
    have single : row.length = 1 := by
      have some := List.length_pos_of_mem isCell
      omega
    obtain ⟨only, rfl⟩ := List.length_eq_one_iff.mp single
    obtain rfl := List.mem_singleton.mp isCell
    exact (alone cell isRow).2
  | _ => trivial

/-- What is a table without its spans is a table. -/
theorem Expr.exists_rows_of_bare {expr : Expr} {rows : List (List Expr)}
    (same : expr.bare = .node (.table rows) ⟨0, 0⟩) :
    ∃ own, expr.form = .table own ∧ own.map (List.map bare) = rows := by
  obtain ⟨form, span⟩ := expr
  rw [bare_node] at same
  injection same with same
  cases form with
  | table own =>
    injection same with same
    exact ⟨own, rfl, same⟩
  | _ => cases same

theorem Form.largest_replicate_le (number count : Nat) :
    largest (List.replicate count number) ≤ number := by
  induction count with
  | zero => exact Nat.zero_le number
  | succ count ih =>
    rw [List.replicate_succ]
    exact Nat.max_le.mpr ⟨Nat.le_refl number, ih⟩

namespace NestedTable

/-- A table without rows in front of a blank cell and further ones. -/
def row (blanks : Nat) : List Expr :=
  .node (.table []) ⟨0, 0⟩ :: List.replicate (blanks + 1) (.node .blank ⟨0, 0⟩)

/-- A table with a single row, the first cell of which is a table. -/
def expr (blanks : Nat) : Expr :=
  .node (.table [row blanks]) ⟨0, 0⟩

theorem printable (literal : Binary64 → List Char) (blanks : Nat) :
    (expr blanks).Printable literal := by
  have table : (Expr.node (.table []) ⟨0, 0⟩).Printable literal :=
    .node trivial ⟨⟨1, Nat.le_refl 1, by simp⟩, by simp⟩ (by simp [Form.children])
  have blank : (Expr.node .blank ⟨0, 0⟩).Printable literal :=
    .node trivial trivial (by simp [Form.children])
  have wellShaped : (Form.table [row blanks]).WellShaped := by
    refine ⟨⟨blanks + 2, by omega, by simp [row]⟩, fun value alone => ?_⟩
    cases List.mem_singleton.mp alone
  refine .node trivial wellShaped fun cell isCell => ?_
  simp only [Form.children, List.flatten_cons, List.flatten_nil, List.append_nil, row,
    List.mem_cons, List.mem_replicate] at isCell
  rcases isCell with rfl | ⟨_, rfl⟩
  · exact table
  · exact blank

theorem nesting_lt (blanks : Nat) : (expr blanks).nesting < maxNesting := by
  have flat : (row blanks).map Expr.nesting = List.replicate (blanks + 2) 0 := by
    simp [row, Expr.nesting_node, Form.map, Form.nesting, Form.largest, List.replicate_succ]
  have below : Form.largest (List.replicate (blanks + 2) 3) ≤ 3 := Form.largest_replicate_le 3 _
  calc (expr blanks).nesting
      = max (Form.largest (List.replicate (blanks + 2) 3)) 0 := by
        rw [expr, Expr.nesting_node, Form.map, List.map_singleton, flat]
        simp [Form.nesting, List.replicate_succ, Form.largest]
    _ < maxNesting := by
        rw [Nat.max_zero, maxNesting]
        omega

end NestedTable

/-- **Tables stand in no rows of one cell, and they are accepted in rows of several.** -/
theorem flatRows_iff_width_le_one (width : Nat) :
    (∀ source expr, readExpression source = .ok expr →
      ∀ depth node, (depth, node) ∈ expr.subtrees 0 → node.form.FlatRows width) ↔ width ≤ 1 := by
  constructor
  · intro flat
    by_contra wide
    obtain ⟨blanks, rfl⟩ := Nat.exists_eq_add_of_le' (Nat.lt_of_not_le wide)
    have printable := NestedTable.printable (fun _ => []) blanks
    obtain ⟨read, reading, same⟩ :=
      printable.reads (NestedTable.nesting_lt blanks) (rfl : isBracketName .endOfInput = false)
        rfl rfl .start
    have accepted := readExpression_of_pieces (String.toList_ofList ..)
      printable.tidy.together printable.tidy.sound reading
    have root := flat _ read accepted 0 read (by rw [Expr.subtrees]; exact .head _)
    obtain ⟨rows, isTable, sameRows⟩ :=
      Expr.exists_rows_of_bare (same.trans (Expr.bare_node _ _))
    obtain ⟨row, _, rfl, sameRow, none⟩ := List.map_eq_cons_iff.mp sameRows
    obtain ⟨cell, blank, rfl, sameCell, sameBlank⟩ := List.map_eq_cons_iff.mp sameRow
    obtain ⟨inner, isInner, _⟩ := Expr.exists_rows_of_bare (sameCell.trans (Expr.bare_node _ _))
    rw [isTable] at root
    refine root _ (.head _) ?_ cell (.head _) inner isInner
    have counted := congrArg List.length sameBlank
    rw [List.length_map, List.length_map, List.length_replicate] at counted
    rw [List.length_cons, counted]
  · intro narrow source expr accepted depth node member
    exact (shaped_of_mem_subtrees accepted member).wellShaped.flatRows narrow

/-- In `{({x}, y)}` a table stands in a table. -/
theorem flatRows_two_fails :
    ¬∀ source expr, readExpression source = .ok expr →
      ∀ depth node, (depth, node) ∈ expr.subtrees 0 → ∀ width, node.form.FlatRows width := by
  intro flat
  have accepted : readExpression "\x7b(\x7bx\x7d, y)\x7d" = .ok (.node (.table
      [[.node (.table [[.node (.tableName "x") ⟨3, 4⟩]]) ⟨2, 5⟩,
        .node (.tableName "y") ⟨7, 8⟩]]) ⟨0, 10⟩) := by
    cbv
  have root := flat _ _ accepted 0 _ (by rw [Expr.subtrees]; exact .head _) 2
  exact root _ (.head _) rfl _ (.head _) _ rfl

end DaxScript
