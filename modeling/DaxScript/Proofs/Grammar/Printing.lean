import DaxScript.Proofs.Grammar.Moving
import DaxScript.Proofs.Token.Tidy

/-!
# Printing expressions

An expression is printed with parentheses around everything that it contains, quotes around every
table name and every text, and every number as some numeral for it.  Not every tree can be printed
that way: there are names that cannot be written (`Form.Spellable`) and forms that no source has
(`Form.WellShaped`).

What is printed is a list of pieces.  It is tidy, so the text that the pieces make up is cut into
them again (`Expr.Printable.tidy`).
-/

set_option autoImplicit false

namespace DaxScript

/-! ## From the leaves to the root -/

namespace Expr

/-- What an expression comes to, when a node comes to something once its children have. -/
def fold {β : Type} (make : Form β → β) (expr : Expr) : β :=
  make (expr.form.attach.map fun child => fold make child.1)
termination_by sizeOf expr
decreasing_by exact sizeOf_lt_of_mem_children child.2

theorem fold_node {β : Type} (make : Form β → β) (form : Form Expr) (span : Span) :
    fold make (node form span) = make (form.map (fold make)) := by
  rw [fold, form_node, Form.map_attach]

/-- The expression with all spans forgotten: expressions are the same up to spans when they are
the same bare. -/
def bare : Expr → Expr :=
  fold fun form => node form ⟨0, 0⟩

theorem bare_node (form : Form Expr) (span : Span) :
    (node form span).bare = node (form.map bare) ⟨0, 0⟩ :=
  fold_node _ form span

theorem bare_withSpan (expr : Expr) (span : Span) : (expr.withSpan span).bare = expr.bare := by
  obtain ⟨form, own⟩ := expr
  rw [withSpan, bare_node, bare_node, form_node]

end Expr

/-! ## How forms are written -/

/-- An operator in front of an operand. -/
def UnaryOperator.piece : UnaryOperator → Piece
  | negate => .ofSymbol .minus
  | plus => .ofSymbol .plus
  | logicalNot => .ofKeyword .logicalNot

/-- An operator between operands. -/
def BinaryOperator.piece : BinaryOperator → Piece
  | add => .ofSymbol .plus
  | subtract => .ofSymbol .minus
  | multiply => .ofSymbol .star
  | divide => .ofSymbol .slash
  | concat => .ofSymbol .ampersand
  | equal => .ofSymbol .equal
  | notEqual => .ofSymbol .notEqual
  | less => .ofSymbol .less
  | lessEqual => .ofSymbol .lessEqual
  | greater => .ofSymbol .greater
  | greaterEqual => .ofSymbol .greaterEqual
  | within => .ofKeyword .within
  | logicalAnd => .ofSymbol .doubleAmpersand
  | logicalOr => .ofSymbol .doubleBar

/-- `"name", TYPE,` -/
def Column.pieces (column : Column) : List Piece :=
  [.enclosed .text column.name, .ofSymbol .comma, .space, .ofWord column.type.name.toList,
    .ofSymbol .comma]

namespace Form

open Piece

/-- `((value), (value), ...)` -/
def renderTuple (values : List (List Piece)) : List Piece :=
  parenthesized (listed (values.map parenthesized))

/-- A row of a table constructor: `(value)` or `((value), (value), ...)`. -/
def renderRow : List (List Piece) → List Piece
  | [value] => parenthesized value
  | values => renderTuple values

/-- `VAR name = (value)` -/
def renderBinding (binding : String × List Piece) : List Piece :=
  ofKeyword .var :: space :: ofWord binding.1.toList :: space :: ofSymbol .equal :: space ::
    parenthesized binding.2

/-- A cell of a row of data: `(value)` or nothing. -/
def renderCell (cell : Option (List Piece)) : List Piece :=
  (cell.map parenthesized).getD []

/-- A row of data: `{(value), , (value)}`. -/
def renderDataRow (cells : List (Option (List Piece))) : List Piece :=
  braced (listed (cells.map renderCell))

/-- How a node is printed, given how its children and how numbers are. -/
def render (literal : Binary64 → List Char) : Form (List Piece) → List Piece
  | number value => [token (.number value) (literal value) none]
  | text content => [enclosed .text content]
  | boolean true => [ofKeyword .trueValue]
  | boolean false => [ofKeyword .falseValue]
  | blank => [ofKeyword .blank]
  | tableName name => [enclosed .quotedName name]
  | measure name => [enclosed .bracketName name]
  | column owner name => [enclosed .quotedName owner, enclosed .bracketName name]
  | tuple values => renderTuple values
  | table rows => braced (listed (rows.map renderRow))
  | call name arguments => ofWord name.toList :: renderTuple arguments
  | calculate target filters => target ++ renderTuple filters
  | bindings values body =>
    values.flatMap (fun binding => renderBinding binding ++ [space]) ++
      ofKeyword .result :: space :: parenthesized body
  | dataTable columns rows =>
    ofKeyword .dataTable ::
      parenthesized (columns.flatMap (fun column => column.pieces ++ [space]) ++
        braced (listed (rows.map renderDataRow)))
  | unary operator operand => operator.piece :: parenthesized operand
  | binary operator left right =>
    parenthesized left ++ space :: operator.piece :: space :: parenthesized right

/-- The largest of some numbers. -/
def largest (numbers : List Nat) : Nat :=
  numbers.foldr max 0

/-- How many operands are open at most around an operand, when a node is printed, given the same
for its children.  The parentheses around a child are an operand of their own. -/
def nesting : Form Nat → Nat
  | tuple values => largest (values.map (· + 2))
  | table rows => largest (rows.map fun
    | [value] => value + 2
    | values => largest (values.map (· + 3)))
  | call _ arguments => largest (arguments.map (· + 2))
  | calculate target filters => max target (largest (filters.map (· + 2)))
  | bindings values body => max (largest (values.map (·.2 + 2))) (body + 2)
  | dataTable _ rows => largest (rows.flatten.map fun cell => (cell.map (· + 2)).getD 0)
  | unary _ operand => operand + 2
  | binary _ left right => max left right + 1
  | _ => 0

end Form

namespace Expr

/-- How an expression is printed, given how numbers are. -/
def render (literal : Binary64 → List Char) : Expr → List Piece :=
  fold (Form.render literal)

/-- An expression as a text. -/
def print (literal : Binary64 → List Char) (expr : Expr) : String :=
  String.ofList (Piece.text (expr.render literal))

/-- How many operands are open at most around an operand of the printed expression. -/
def nesting : Expr → Nat :=
  fold Form.nesting

theorem render_node (literal : Binary64 → List Char) (form : Form Expr) (span : Span) :
    (node form span).render literal = (form.map (render literal)).render literal :=
  fold_node _ form span

theorem nesting_node (form : Form Expr) (span : Span) :
    (node form span).nesting = (form.map nesting).nesting :=
  fold_node _ form span

end Expr

/-! ## What can be printed -/

/-- Whether a text is a name that is no keyword. -/
def isName (name : String) : Bool :=
  Piece.isWord name.toList && (Keyword.ofWord? name).isNone

/-- Whether a function may be called by a name. -/
def isCallName (name : String) : Bool :=
  isName name || ["TRUE", "FALSE", "BLANK", "AND", "OR"].contains name

/-- Filters may stand behind a measure and behind a column. -/
def Expr.IsTarget (target : Expr) : Prop :=
  (∃ name, target.form = .measure name) ∨ ∃ owner name, target.form = .column owner name

namespace Form

/-- The numbers and names of a node can be written. -/
def Spellable {α : Type} (literal : Binary64 → List Char) : Form α → Prop
  | number value => Numeral.value? (literal value) = some value
  | measure name => ']' ∉ name.toList
  | column _ name => ']' ∉ name.toList
  | call name _ => isCallName name = true
  | bindings values _ => ∀ binding ∈ values, isName binding.1 = true
  | _ => True

/-- The form is one that can be read.  What stands in a table constructor in parentheses is a row
if it is a tuple, so a row of a single value holds none. -/
def WellShaped : Form Expr → Prop
  | tuple values => 2 ≤ values.length
  | table rows =>
    (∃ width, 1 ≤ width ∧ ∀ row ∈ rows, row.length = width) ∧
      ∀ value, [value] ∈ rows →
        (∀ values, value.form ≠ .tuple values) ∧ ∀ inner, value.form ≠ .table inner
  | calculate target _ => target.IsTarget
  | bindings values _ => values ≠ []
  | dataTable columns rows => columns ≠ [] ∧ ∀ row ∈ rows, row.length = columns.length
  | _ => True

end Form

/-- All nodes of an expression can be printed. -/
inductive Expr.Printable (literal : Binary64 → List Char) : Expr → Prop where
  | node {form : Form Expr} {span : Span} (spellable : form.Spellable literal)
      (wellShaped : form.WellShaped) (inner : ∀ child ∈ form.children, Printable literal child) :
      Printable literal (.node form span)

/-! ## What is printed is tidy -/

open Piece

theorem isWord_of_isName {name : String} (named : isName name = true) :
    isWord name.toList = true :=
  (Bool.and_eq_true_iff.mp named).1

theorem isWord_of_isCallName {name : String} (named : isCallName name = true) :
    isWord name.toList = true := by
  rcases Bool.or_eq_true_iff.mp named with isName | isKeyword
  · exact isWord_of_isName isName
  · simp only [List.contains_eq_mem, List.mem_cons, List.not_mem_nil, or_false,
      decide_eq_true_eq] at isKeyword
    rcases isKeyword with rfl | rfl | rfl | rfl | rfl <;> rfl

theorem UnaryOperator.tidy_piece (operator : UnaryOperator) : Tidy [operator.piece] := by
  cases operator <;> first | exact tidy_ofSymbol _ | exact tidy_ofKeyword _

theorem BinaryOperator.tidy_piece (operator : BinaryOperator) : Tidy [operator.piece] := by
  cases operator <;> first | exact tidy_ofSymbol _ | exact tidy_ofKeyword _

theorem Column.tidy_pieces (column : Column) : Tidy column.pieces := by
  have isWord : isWord column.type.name.toList = true := by
    cases column.type <;> rfl
  have type : Tidy [ofWord column.type.name.toList, ofSymbol .comma] :=
    .append (tidy_ofWord isWord) (tidy_ofSymbol _) (separated_cons (by decide) _)
  exact .append (tidy_enclosed (.inl rfl)) (.lone rfl (fits_lone rfl) type.behindSpace)
    (separated_cons (by decide) _)

namespace Form

theorem tidy_renderTuple {values : List (List Piece)} (each : ∀ value ∈ values, Tidy value) :
    Tidy (renderTuple values) := by
  refine (Tidy.listed ?_).parenthesized
  exact List.forall_mem_map.mpr fun value isValue => (each value isValue).parenthesized

theorem tidy_renderRow {values : List (List Piece)} (each : ∀ value ∈ values, Tidy value) :
    Tidy (renderRow values) := by
  unfold renderRow
  split
  · exact (each _ (.head _)).parenthesized
  · exact tidy_renderTuple each

theorem tidy_renderBinding {binding : String × List Piece} (named : isName binding.1 = true)
    (tidy : Tidy binding.2) : Tidy (renderBinding binding) := by
  have behind : Tidy (ofSymbol .equal :: space :: parenthesized binding.2) :=
    .append (tidy_ofSymbol _) tidy.parenthesized.behindSpace (separated_space _)
  refine .append (tidy_ofKeyword _) (Tidy.behindSpace ?_) (separated_space _)
  exact .append (tidy_ofWord (isWord_of_isName named)) behind.behindSpace (separated_space _)

theorem tidy_renderDataRow {cells : List (Option (List Piece))}
    (each : ∀ cell ∈ cells, ∀ value ∈ cell, Tidy value) : Tidy (renderDataRow cells) := by
  refine (Tidy.listed (List.forall_mem_map.mpr fun cell isCell => ?_)).braced
  cases cell with
  | none => exact .nil
  | some value => exact (each _ isCell value rfl).parenthesized

/-- **A node is tidy when its children are.** -/
theorem tidy_render {literal : Binary64 → List Char} {form : Form (List Piece)}
    (spellable : form.Spellable literal) (each : ∀ child ∈ form.children, Tidy child) :
    Tidy (form.render literal) := by
  cases form with
  | number value => exact tidy_number spellable
  | text content => exact tidy_enclosed (.inl rfl)
  | boolean value => cases value <;> exact tidy_ofKeyword _
  | blank => exact tidy_ofKeyword _
  | tableName name => exact tidy_enclosed (.inl rfl)
  | measure name => exact tidy_enclosed (.inr spellable)
  | column owner name =>
    exact .append (tidy_enclosed (.inl rfl)) (tidy_enclosed (.inr spellable))
      (separated_cons (by decide) _)
  | tuple values => exact tidy_renderTuple each
  | table rows =>
    refine (Tidy.listed (List.forall_mem_map.mpr fun row isRow => ?_)).braced
    exact tidy_renderRow fun value isValue =>
      each value (List.mem_flatten.mpr ⟨row, isRow, isValue⟩)
  | call name arguments =>
    exact .append (tidy_ofWord (isWord_of_isCallName spellable)) (tidy_renderTuple each)
      (separated_parenthesized _)
  | calculate target filters =>
    exact .append (each target (.head _))
      (tidy_renderTuple fun filter isFilter => each filter (.tail _ isFilter))
      (separated_parenthesized _)
  | bindings values body =>
    have isBody : Tidy body := each body (List.mem_append_right _ (List.mem_singleton_self _))
    refine .flatMap_space (fun binding isBinding => ?_)
      (.append (tidy_ofKeyword _) isBody.parenthesized.behindSpace (separated_space _))
    exact tidy_renderBinding (spellable binding isBinding)
      (each _ (List.mem_append_left _ (List.mem_map.mpr ⟨binding, isBinding, rfl⟩)))
  | dataTable columns rows =>
    refine .append (tidy_ofKeyword _) (Tidy.parenthesized (.flatMap_space
      (fun column _ => column.tidy_pieces) ?_)) (separated_parenthesized _)
    refine (Tidy.listed (List.forall_mem_map.mpr fun row isRow => ?_)).braced
    refine tidy_renderDataRow fun cell isCell value isValue => each value ?_
    exact List.mem_filterMap.mpr ⟨cell, List.mem_flatten.mpr ⟨row, isRow, isCell⟩, isValue⟩
  | unary operator operand =>
    exact .append operator.tidy_piece (each operand (.head _)).parenthesized
      (separated_parenthesized _)
  | binary operator left right =>
    have isLeft : Tidy left := each left (.head _)
    have isRight : Tidy right := each right (.tail _ (.head _))
    have behind : Tidy (operator.piece :: space :: parenthesized right) :=
      .append operator.tidy_piece isRight.parenthesized.behindSpace (separated_space _)
    exact .append isLeft.parenthesized behind.behindSpace (separated_space _)

theorem spellable_map {α β : Type} {literal : Binary64 → List Char} {form : Form α}
    (make : α → β) (spellable : form.Spellable literal) : (form.map make).Spellable literal := by
  cases form with
  | bindings values body => exact List.forall_mem_map.mpr spellable
  | _ => exact spellable

end Form

/-- **What is printed is cut into its pieces again.** -/
theorem Expr.Printable.tidy {literal : Binary64 → List Char} {expr : Expr}
    (printable : expr.Printable literal) : Tidy (expr.render literal) := by
  induction printable with
  | node spellable _ _ ih =>
    rw [render_node]
    refine Form.tidy_render (Form.spellable_map _ spellable) ?_
    rw [Form.children_map]
    exact List.forall_mem_map.mpr ih

end DaxScript
