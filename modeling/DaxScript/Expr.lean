import DaxScript.Number.Binary64
import DaxScript.Text.LetterCase
import DaxScript.Text.Span

/-!
# Expressions

An expression is a tree whose nodes carry the span of the source they were read from.  What a node
says is separate from what its children are: a `Form` is the shape of one node over any type of
children, and an expression is a form over expressions together with a span.  So the children of
a node can be listed, and functions on trees recurse over that list (`Expr.subtrees`).
-/

set_option autoImplicit false

namespace DaxScript

inductive UnaryOperator where
  | negate
  | plus
  | logicalNot
  deriving DecidableEq

inductive BinaryOperator where
  | add | subtract | multiply | divide
  | concat
  | equal | notEqual | less | lessEqual | greater | greaterEqual | within
  | logicalAnd | logicalOr
  deriving DecidableEq

/-- The type of a column in a `DATATABLE`. -/
inductive ColumnType where
  | string | integer | double | currency | dateTime | boolean
  deriving DecidableEq

namespace ColumnType

/-- The word for a column type. -/
def name : ColumnType → String
  | string => "STRING"
  | integer => "INTEGER"
  | double => "DOUBLE"
  | currency => "CURRENCY"
  | dateTime => "DATETIME"
  | boolean => "BOOLEAN"

/-- All column types. -/
def all : List ColumnType :=
  [string, integer, double, currency, dateTime, boolean]

/-- The column type that a word names, in any letter case. -/
def ofWord? (word : String) : Option ColumnType :=
  all.find? fun type => sameIgnoringCase type.name word

end ColumnType

/-- A column of a `DATATABLE`. -/
structure Column where
  name : String
  type : ColumnType
  deriving DecidableEq

/-- What one node of an expression says, over a type of children. -/
inductive Form (α : Type) where
  | number (value : Binary64)
  | text (content : String)
  /-- `TRUE` and `FALSE` without parentheses. -/
  | boolean (value : Bool)
  /-- `BLANK` without parentheses. -/
  | blank
  /-- A name on its own: of a table or of a variable. -/
  | tableName (name : String)
  /-- `[Name]` -/
  | measure (name : String)
  /-- `Table[Column]` -/
  | column (table column : String)
  /-- `(a, b)`, with two values or more. -/
  | tuple (values : List α)
  /-- `{a, b}` with one column, or `{(a, b), (c, d)}` with several. -/
  | table (rows : List (List α))
  | call (name : String) (arguments : List α)
  /-- `[Measure](filter, ...)`, short for a `CALCULATE` call. -/
  | calculate (target : α) (filters : List α)
  /-- `VAR name = value ... RETURN body` -/
  | bindings (values : List (String × α)) (body : α)
  /-- `DATATABLE("name", TYPE, ..., {{a, b}, ...})`; a cell may be left out. -/
  | dataTable (columns : List Column) (rows : List (List (Option α)))
  | unary (operator : UnaryOperator) (operand : α)
  | binary (operator : BinaryOperator) (left right : α)

namespace Form

variable {α : Type}

/-- The children of a node, in the order in which they are written. -/
def children : Form α → List α
  | tuple values => values
  | table rows => rows.flatten
  | call _ arguments => arguments
  | calculate target filters => target :: filters
  | bindings values body => values.map (·.2) ++ [body]
  | dataTable _ rows => rows.flatten.filterMap id
  | unary _ operand => [operand]
  | binary _ left right => [left, right]
  | _ => []

/-- A child is smaller than its node. -/
theorem sizeOf_lt_of_mem_children [SizeOf α] {form : Form α} {child : α}
    (member : child ∈ form.children) : sizeOf child < sizeOf form := by
  cases form with
  | tuple values =>
    have : sizeOf child < sizeOf values := List.sizeOf_lt_of_mem member
    simp only [tuple.sizeOf_spec]
    omega
  | table rows =>
    obtain ⟨row, rowMember, cellMember⟩ := List.mem_flatten.mp member
    have := List.sizeOf_lt_of_mem rowMember
    have := List.sizeOf_lt_of_mem cellMember
    simp only [table.sizeOf_spec]
    omega
  | call name arguments =>
    have : sizeOf child < sizeOf arguments := List.sizeOf_lt_of_mem member
    simp only [call.sizeOf_spec]
    omega
  | calculate target filters =>
    simp only [calculate.sizeOf_spec]
    rcases List.mem_cons.mp member with rfl | filterMember
    · omega
    · have := List.sizeOf_lt_of_mem filterMember
      omega
  | bindings values body =>
    simp only [bindings.sizeOf_spec]
    rcases List.mem_append.mp member with valueMember | bodyMember
    · obtain ⟨⟨name, value⟩, bindingMember, rfl⟩ := List.mem_map.mp valueMember
      have := List.sizeOf_lt_of_mem bindingMember
      simp only [Prod.mk.sizeOf_spec] at this ⊢
      omega
    · obtain rfl := List.mem_singleton.mp bodyMember
      omega
  | dataTable columns rows =>
    obtain ⟨cell, cellMember, rfl⟩ := List.mem_filterMap.mp member
    obtain ⟨row, rowMember, cellMember⟩ := List.mem_flatten.mp cellMember
    have := List.sizeOf_lt_of_mem rowMember
    have := List.sizeOf_lt_of_mem cellMember
    simp only [Option.some.sizeOf_spec] at this
    simp only [dataTable.sizeOf_spec]
    omega
  | unary operator operand =>
    obtain rfl := List.mem_singleton.mp member
    simp only [unary.sizeOf_spec]
    omega
  | binary operator left right =>
    simp only [binary.sizeOf_spec]
    rcases List.mem_cons.mp member with rfl | rightMember
    · omega
    · obtain rfl := List.mem_singleton.mp rightMember
      omega
  | _ => simp [children] at member

end Form

/-- An expression: a form over expressions, and where it was read. -/
inductive Expr where
  | node (form : Form Expr) (span : Span)

namespace Expr

/-- What the root says. -/
def form : Expr → Form Expr
  | node form _ => form

/-- Where the whole expression was read. -/
def span : Expr → Span
  | node _ span => span

/-- The same expression read from another span. -/
def withSpan (expr : Expr) (span : Span) : Expr :=
  node expr.form span

/-- The expressions directly below the root. -/
def children (expr : Expr) : List Expr :=
  expr.form.children

theorem sizeOf_lt_of_mem_children {expr child : Expr} (member : child ∈ expr.children) :
    sizeOf child < sizeOf expr := by
  obtain ⟨form, span⟩ := expr
  have : sizeOf child < sizeOf form := Form.sizeOf_lt_of_mem_children member
  simp only [node.sizeOf_spec]
  omega

/-- The expression and everything below it, each with its depth, a node before its children. -/
def subtrees (expr : Expr) (depth : Nat) : List (Nat × Expr) :=
  (depth, expr) :: expr.children.attach.flatMap fun child => subtrees child.1 (depth + 1)
termination_by sizeOf expr
decreasing_by exact sizeOf_lt_of_mem_children child.2

end Expr

end DaxScript
