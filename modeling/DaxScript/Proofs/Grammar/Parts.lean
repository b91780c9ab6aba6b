import DaxScript.Proofs.Grammar.ExpressionRule
import DaxScript.Proofs.Grammar.Printing

/-!
# What operands are made of

A rule says which tokens make up a value.  Where only the trees matter it is enough to know that
the expressions inside of an operand are read from some of its tokens (`Rule.From`).  What the forms
of operands have to say about this is said once here (`Rule.Operand.made`), so what holds of all
nodes of an expression, or along all paths in it, follows by going through the cases of
`Rule.Made`.

Two of the forms do not contain the expressions that they are read from.  A group is the expression
in its parentheses, and a row of a table is a tuple without its node (`Expr.row?`).
-/

set_option autoImplicit false

namespace DaxScript

open Production

namespace Rule

variable {α : Type}

/-- The rule reads the value from some of the tokens. -/
def From (rule : Rule α) (used : List Token) (value : α) : Prop :=
  ∃ own next, own ⊆ used ∧ rule own value next

namespace From

variable {rule item : Rule α} {used more : List Token} {value : α}

theorem of_reading {next : TokenKind} (reading : rule used value next) : rule.From used value :=
  ⟨used, next, List.Subset.refl used, reading⟩

theorem mono (among : used ⊆ more) (isFrom : rule.From used value) : rule.From more value := by
  obtain ⟨own, next, isOwn, reading⟩ := isFrom
  exact ⟨own, next, List.Subset.trans isOwn among, reading⟩

theorem afterComma (isFrom : (AfterComma item).From used value) : item.From used value := by
  obtain ⟨own, next, isOwn, reading⟩ := isFrom
  cases reading with
  | @intro comma inner _ _ sign reading =>
    exact ⟨inner, next, List.Subset.trans (List.subset_cons_self comma inner) isOwn, reading⟩

end From

/-! ## Repetition -/

section Repetition

variable {item : Rule α} {used : List Token} {values : List α} {next : TokenKind}

/-- Every item of a repetition is read from some of the tokens. -/
theorem Repeated.each {continues : TokenKind → Bool}
    (reading : Repeated continues item used values next) :
    ∀ value ∈ values, item.From used value := by
  induction reading with
  | done => exact fun _ member => absurd member List.not_mem_nil
  | @more used later value values next _ reading _ ih =>
    rw [List.forall_mem_cons]
    refine ⟨(From.of_reading reading).mono (List.subset_append_left used later), ?_⟩
    exact fun other member => (ih other member).mono (List.subset_append_right used later)

/-- Where tokens are read there is an item. -/
theorem Repeated.values_ne_nil {continues : TokenKind → Bool}
    (reading : Repeated continues item used values next) (some : used ≠ []) : values ≠ [] := by
  cases reading with
  | done => exact absurd rfl some
  | more => exact List.cons_ne_nil _ _

theorem Separated.each (reading : Separated item used values next) :
    ∀ value ∈ values, item.From used value := by
  cases reading with
  | @intro used later value values _ reading others =>
    rw [List.forall_mem_cons]
    refine ⟨(From.of_reading reading).mono (List.subset_append_left used later), ?_⟩
    exact fun other member =>
      (others.each other member).afterComma.mono (List.subset_append_right used later)

theorem SeparatedUnless.each {close : Symbol} (reading : SeparatedUnless close item used values next) :
    ∀ value ∈ values, item.From used value := by
  cases reading with
  | none => exact fun _ member => absurd member List.not_mem_nil
  | some _ items => exact items.each

end Repetition

/-- What stands between a token in front and one behind. -/
theorem subset_between (opening closing : Token) (used : List Token) :
    used ⊆ opening :: (used ++ [closing]) :=
  List.subset_cons_of_subset opening (List.subset_append_left used [closing])

/-! ## Parts of operands -/

section Parts

variable {expr : Rule Expr} {used : List Token} {next : TokenKind}

theorem Arguments.each {values : List Expr × Nat} (reading : Arguments expr used values next) :
    ∀ value ∈ values.1, expr.From used value := by
  cases reading with
  | @intro opening closing inner values _ _ items _ =>
    exact fun value member => (items.each value member).mono (subset_between opening closing inner)

theorem Binding.parts {binding : String × Expr} (isFrom : (Binding expr).From used binding) :
    (∃ token ∈ used, token.kind = .identifier binding.1) ∧ expr.From used binding.2 := by
  obtain ⟨own, _, isOwn, reading⟩ := isFrom
  cases reading with
  | @intro word symbol equals name inner value _ opens named sign reading =>
    refine ⟨⟨symbol, isOwn (.tail _ (.head _)), named⟩, (From.of_reading reading).mono ?_⟩
    exact List.Subset.trans (fun _ member => .tail _ (.tail _ (.tail _ member))) isOwn

theorem TableRow.element {width? : Option Nat} {row : List Expr}
    (isFrom : (TableRow expr width?).From used row) :
    (∃ element, expr.From used element ∧ element.row? = Option.some row) ∧
      ∀ width ∈ width?, row.length = width := by
  obtain ⟨own, _, isOwn, reading⟩ := isFrom
  cases reading with
  | intro reading isRow fits => exact ⟨⟨_, (From.of_reading reading).mono isOwn, isRow⟩, fits⟩

/-- All rows of a table are as wide as the first, and each is read from an element. -/
theorem TableRows.elements {rows : List (List Expr)} (reading : TableRows expr used rows next) :
    (∃ width, ∀ row ∈ rows, row.length = width) ∧
      ∀ row ∈ rows, ∃ element, expr.From used element ∧ element.row? = Option.some row := by
  cases reading with
  | none => exact ⟨⟨0, by simp⟩, by simp⟩
  | @some inFront later row rows _ opens first others =>
    have isFirst := TableRow.element
      ((From.of_reading first).mono (List.subset_append_left inFront later))
    have isOther (other : List Expr) (member : other ∈ rows) := TableRow.element
      ((others.each other member).afterComma.mono (List.subset_append_right inFront later))
    simp only [List.forall_mem_cons]
    exact ⟨⟨row.length, rfl, fun other member => (isOther other member).2 row.length rfl⟩,
      isFirst.1, fun other member => (isOther other member).1⟩

theorem DataRow.cells {width : Nat} {row : List (Option Expr)}
    (isFrom : (DataRow expr width).From used row) :
    row.length = width ∧ ∀ cell ∈ row, ∀ value ∈ cell, expr.From used value := by
  obtain ⟨own, _, isOwn, reading⟩ := isFrom
  cases reading with
  | @intro opening closing inner cells _ opens items closes fits =>
    refine ⟨fits, fun cell isCell value isValue => ?_⟩
    obtain ⟨cellTokens, _, isCellToken, reading⟩ := items.each cell isCell
    have among := List.Subset.trans isCellToken
      (List.Subset.trans (subset_between opening closing inner) isOwn)
    cases reading with
    | absent => cases isValue
    | present _ reading =>
      cases isValue
      exact (From.of_reading reading).mono among

end Parts

/-! ## Operands -/

/-- What an operand is made of, given the tokens that it is read from and the rules for the
expressions inside. -/
inductive Made (expr : Nat → Rule Expr) (used : List Token) : Expr → Prop where
  | leaf {token : Token} {form : Form Expr} {span : Span} (stated : token.kind.leaf? = some form) :
      Made expr used (.node form span)
  | reference {target : Expr} (isTarget : target.IsTarget) : Made expr used target
  | calculate {target : Expr} {filters : List Expr} {span : Span} (isTarget : target.IsTarget)
      (parts : ∀ filter ∈ filters, (expr 0).From used filter) :
      Made expr used (.node (.calculate target filters) span)
  | call {token : Token} {name : String} {arguments : List Expr} {span : Span}
      (isToken : token ∈ used) (named : token.kind.functionName? = some name)
      (parts : ∀ argument ∈ arguments, (expr 0).From used argument) :
      Made expr used (.node (.call name arguments) span)
  | unary {operator : UnaryOperator} {operand : Expr} {span : Span}
      (part : (expr operator.operandLevel).From used operand) :
      Made expr used (.node (.unary operator operand) span)
  | bindings {values : List (String × Expr)} {body : Expr} {span : Span} (some : values ≠ [])
      (parts : ∀ binding ∈ values, (∃ token ∈ used, token.kind = .identifier binding.1) ∧
        (expr 0).From used binding.2)
      (part : (expr 0).From used body) : Made expr used (.node (.bindings values body) span)
  | group {value : Expr} {span : Span} (part : (expr 0).From used value) :
      Made expr used (value.withSpan span)
  | tuple {values : List Expr} {span : Span} (several : 2 ≤ values.length)
      (parts : ∀ value ∈ values, (expr 0).From used value) :
      Made expr used (.node (.tuple values) span)
  | table {rows : List (List Expr)} {span : Span}
      (even : ∃ width, ∀ row ∈ rows, row.length = width)
      (parts : ∀ row ∈ rows, ∃ element, (expr 0).From used element ∧ element.row? = Option.some row) :
      Made expr used (.node (.table rows) span)
  | dataTable {columns : List Column} {rows : List (List (Option Expr))} {span : Span}
      (some : columns ≠ [])
      (parts : ∀ row ∈ rows, row.length = columns.length ∧
        ∀ cell ∈ row, ∀ value ∈ cell, (expr 0).From used value) :
      Made expr used (.node (.dataTable columns rows) span)

/-- A measure or a column stands alone or has filters. -/
theorem Filters.made {expr : Nat → Rule Expr} {target value : Expr} {used more : List Token}
    {next : TokenKind} (reading : Filters (expr 0) target used value next)
    (isTarget : target.IsTarget) (among : used ⊆ more) : Made expr more value := by
  cases reading with
  | none => exact .reference isTarget
  | some filters =>
    exact .calculate isTarget fun filter member => (filters.each filter member).mono among

/-- **What an operand is made of.** -/
theorem Operand.made {expr : Nat → Rule Expr} {used : List Token} {value : Expr}
    {next : TokenKind} (reading : Operand expr used value next) : Made expr used value := by
  cases reading with
  | leaf stated => exact .leaf stated
  | @measure token name inner _ _ named filters =>
    exact filters.made (.inl ⟨name, rfl⟩) (List.subset_cons_self token inner)
  | @column table column tableName columnName inner _ _ _ _ filters =>
    refine filters.made (.inr ⟨tableName, columnName, rfl⟩) ?_
    exact fun _ member => .tail _ (.tail _ member)
  | @call token name inner values stop _ named arguments =>
    refine .call (.head _) named fun argument member => ?_
    exact (arguments.each argument member).mono (List.subset_cons_self token inner)
  | @unary token operator inner value _ sign operand =>
    exact .unary ((From.of_reading operand).mono (List.subset_cons_self token inner))
  | @bindings word result inner later values body _ opens items separates reading =>
    have inFront : word :: inner ⊆ word :: (inner ++ result :: later) :=
      List.cons_subset_cons word (List.subset_append_left inner _)
    have behind : later ⊆ word :: (inner ++ result :: later) :=
      fun _ member => .tail _ (List.mem_append_right inner (.tail _ member))
    refine .bindings (items.values_ne_nil (List.cons_ne_nil word inner)) (fun binding member => ?_)
      ((From.of_reading reading).mono behind)
    exact Binding.parts ((items.each binding member).mono inFront)
  | @group opening closing inner value _ opens reading closes =>
    exact .group ((From.of_reading reading).mono (subset_between opening closing inner))
  | @tuple opening closing inner first second others _ opens items closes =>
    refine .tuple (Nat.le_add_left 2 others.length) fun value member => ?_
    exact (items.each value member).mono (subset_between opening closing inner)
  | @table opening closing inner rows _ opens items closes =>
    obtain ⟨even, elements⟩ := items.elements
    refine .table even fun row member => ?_
    obtain ⟨element, isFrom, isRow⟩ := elements row member
    exact ⟨element, isFrom.mono (subset_between opening closing inner), isRow⟩
  | @dataTable word outer opening closing last inner later columns rows _ named opens heads some
      opensRows items closesRows closes =>
    have among : later ⊆ word :: outer :: (inner ++ opening :: (later ++ [closing, last])) :=
      fun _ member => .tail _ (.tail _ (List.mem_append_right inner
        (.tail _ (List.mem_append_left _ member))))
    exact .dataTable some fun row member => DataRow.cells ((items.each row member).mono among)

end Rule

end DaxScript
