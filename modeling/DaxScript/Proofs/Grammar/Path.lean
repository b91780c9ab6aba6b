import DaxScript.Proofs.Grammar.Parts
import DaxScript.Proofs.Grammar.Subtrees
import DaxScript.Proofs.Grammar.WholeExpression

/-!
# Paths in expressions

A path leads from the root of an expression down to one of its nodes.  It is given by how each of
its nodes stands in the one above (`Edge`), and the nodes that paths lead to are the ones that are
listed as subtrees, at the depth of the length of the path (`Expr.mem_subtrees_iff`).

Expressions are read with a number of levels of nesting and a least level for their operators, and
what is known of paths depends on both.  A law for paths is kept by everything that reading does if
it is kept by the few ways in which reading makes longer paths of shorter ones (`PathLaw`).  Then it
holds of all paths in all expressions that are read (`PathLaw.of_readExpression`).
-/

set_option autoImplicit false

namespace DaxScript

open Production

/-! ## Edges -/

/-- How a node stands in the one above. -/
inductive Edge where
  /-- A value of a tuple. -/
  | value
  /-- A cell of a table constructor. -/
  | cell
  | argument
  /-- The measure or the column in front of filters. -/
  | target
  | filter
  /-- What a variable is bound to. -/
  | variable
  | body
  /-- A cell of a `DATATABLE`. -/
  | dataCell
  /-- What stands behind a unary operator. -/
  | operand
  | left
  | right
  deriving DecidableEq

/-- Whether what stands there is an expression of its own inside of an operand. -/
def Edge.nests : Edge → Bool
  | target | left | right => false
  | _ => true

/-- The children of a node and how they stand in it. -/
def Form.edges {α : Type} : Form α → List (Edge × α)
  | tuple values => values.map (.value, ·)
  | table rows => rows.flatten.map (.cell, ·)
  | call _ arguments => arguments.map (.argument, ·)
  | calculate target filters => (.target, target) :: filters.map (.filter, ·)
  | bindings values body => values.map (fun binding => (.variable, binding.2)) ++ [(.body, body)]
  | dataTable _ rows => (rows.flatten.filterMap id).map (.dataCell, ·)
  | unary _ operand => [(.operand, operand)]
  | binary _ left right => [(.left, left), (.right, right)]
  | _ => []

/-- No child is left out. -/
theorem Form.map_edges {α : Type} (form : Form α) : form.edges.map (·.2) = form.children := by
  cases form <;> simp [edges, children, Function.comp_def]

namespace Expr

/-! ## Paths -/

/-- A path leads from an expression to a node in it. -/
inductive Path : Expr → List Edge → Expr → Prop where
  | here {expr : Expr} : Path expr [] expr
  | down {expr child node : Expr} {edge : Edge} {edges : List Edge}
      (member : (edge, child) ∈ expr.form.edges) (path : Path child edges node) :
      Path expr (edge :: edges) node

theorem mem_children_of_mem_edges {expr child : Expr} {edge : Edge}
    (member : (edge, child) ∈ expr.form.edges) : child ∈ expr.children := by
  rw [children, ← Form.map_edges]
  exact List.mem_map.mpr ⟨(edge, child), member, rfl⟩

theorem Path.trans {expr middle node : Expr} {edges later : List Edge}
    (path : expr.Path edges middle) (further : middle.Path later node) :
    expr.Path (edges ++ later) node := by
  induction path with
  | here => exact further
  | down member _ ih => exact .down member (ih further)

/-- **The subtrees that are listed are the nodes that paths lead to**, and the depth of a node is
the length of a path to it. -/
theorem mem_subtrees_iff {expr node : Expr} {depth depth' : Nat} :
    (depth', node) ∈ expr.subtrees depth ↔
      ∃ edges, expr.Path edges node ∧ depth' = depth + edges.length := by
  constructor
  · intro member
    rw [subtrees] at member
    rcases List.mem_cons.mp member with same | below
    · cases same
      exact ⟨[], .here, rfl⟩
    · obtain ⟨⟨child, isChild⟩, _, inside⟩ := List.mem_flatMap.mp below
      obtain ⟨edges, path, same⟩ := mem_subtrees_iff.mp inside
      rw [children, ← Form.map_edges] at isChild
      obtain ⟨⟨edge, _⟩, isEdge, rfl⟩ := List.mem_map.mp isChild
      refine ⟨edge :: edges, .down isEdge path, ?_⟩
      rw [same, List.length_cons]
      omega
  · rintro ⟨edges, path, rfl⟩
    induction path generalizing depth with
    | here =>
      rw [subtrees]
      exact .head _
    | @down expr child node edge edges member _ ih =>
      have isChild := mem_children_of_mem_edges member
      have inside : (depth + 1 + edges.length, node) ∈ child.subtrees (depth + 1) := ih
      rw [subtrees, List.length_cons, Nat.add_comm edges.length, ← Nat.add_assoc]
      exact .tail _ (List.mem_flatMap.mpr ⟨⟨child, isChild⟩, List.mem_attach _ _, inside⟩)
termination_by sizeOf expr
decreasing_by exact sizeOf_lt_of_mem_children isChild

/-- All paths that begin at the root. -/
def AllPaths (holds : List Edge → Prop) (expr : Expr) : Prop :=
  ∀ edges node, expr.Path edges node → holds edges

/-- A path ends at the root or goes on below one of the edges there. -/
theorem allPaths_iff {holds : List Edge → Prop} {expr : Expr} :
    expr.AllPaths holds ↔ holds [] ∧
      ∀ edge child, (edge, child) ∈ expr.form.edges →
        child.AllPaths fun edges => holds (edge :: edges) := by
  constructor
  · intro all
    exact ⟨all [] expr .here, fun edge child member edges node path =>
      all (edge :: edges) node (.down member path)⟩
  · rintro ⟨alone, below⟩ edges node path
    cases path with
    | here => exact alone
    | down member path => exact below _ _ member _ _ path

theorem AllPaths.withSpan {holds : List Edge → Prop} {expr : Expr} (all : expr.AllPaths holds)
    (span : Span) : (expr.withSpan span).AllPaths holds := by
  have below := allPaths_iff.mp all
  exact allPaths_iff.mpr below

/-- A leaf has no paths but the empty one. -/
theorem allPaths_of_children_eq_nil {holds : List Edge → Prop} {expr : Expr}
    (childless : expr.children = []) (alone : holds []) : expr.AllPaths holds := by
  refine allPaths_iff.mpr ⟨alone, fun edge child member => ?_⟩
  have isChild := mem_children_of_mem_edges member
  rw [childless] at isChild
  cases isChild

theorem IsTarget.children_eq_nil {target : Expr} (isTarget : target.IsTarget) :
    target.children = [] := by
  rcases isTarget with ⟨_, same⟩ | ⟨_, _, same⟩ <;> rw [children, same] <;> rfl

end Expr

/-! ## Laws for paths -/

/-- A law for paths in what is read with a number of levels and with operators of a least level
outside, which is kept by all ways in which expressions are put together. -/
structure PathLaw (holds : (levels level : Nat) → List Edge → Prop) : Prop where
  left {levels level : Nat} {edges : List Edge} (inner : holds levels level edges) :
    holds levels level (.left :: edges)
  right {levels level : Nat} {operator : BinaryOperator} {edges : List Edge}
    (binds : level ≤ operator.level) (inner : holds levels (operator.level + 1) edges) :
    holds levels level (.right :: edges)
  /-- An operand opens a level, also if it is a leaf. -/
  alone {levels level : Nat} : holds (levels + 1) level []
  target {levels level : Nat} : holds (levels + 1) level [.target]
  /-- Parentheses open a level and leave no node. -/
  group {levels level : Nat} {edges : List Edge} (inner : holds levels 0 edges) :
    holds (levels + 1) level edges
  nested {levels level own : Nat} {edge : Edge} {edges : List Edge} (nests : edge.nests = true)
    (inner : holds levels own edges) : holds (levels + 1) level (edge :: edges)
  /-- A tuple that is taken for a row leaves no node. -/
  row {levels level : Nat} {edges : List Edge} (inner : holds levels 0 (.value :: edges)) :
    holds (levels + 1) level (.cell :: edges)

namespace Rule

section Law

variable {holds : (levels level : Nat) → List Edge → Prop} (law : PathLaw holds)
include law

/-- Paths to the cells of a row are those of its element, or lead through the node that it leaves
out. -/
theorem allPaths_cell {levels level : Nat} {element cell : Expr} {row : List Expr}
    (all : element.AllPaths (holds levels 0)) (isRow : element.row? = some row)
    (member : cell ∈ row) : cell.AllPaths fun edges => holds (levels + 1) level (.cell :: edges) := by
  intro edges node path
  obtain ⟨form, span⟩ := element
  cases form with
  | tuple values =>
    cases isRow
    have isEdge : (Edge.value, cell) ∈ (Form.tuple row).edges := List.mem_map_of_mem member
    exact law.row (all _ node (.down isEdge path))
  | table => cases isRow
  | _ =>
    cases isRow
    obtain rfl := List.mem_singleton.mp member
    exact law.nested rfl (all edges node path)

/-- A law holds with one level more of what is made of expressions of which it holds. -/
theorem Made.allPaths {expr : Nat → Rule Expr} {used : List Token} {value : Expr}
    (made : Made expr used value) {levels : Nat}
    (inside : ∀ own part, (expr own).From used part → part.AllPaths (holds levels own))
    (level : Nat) : value.AllPaths (holds (levels + 1) level) := by
  -- Below an edge that nests stands an expression of its own.
  have nested {own : Nat} {edge : Edge} {part : Expr} (nests : edge.nests = true)
      (isFrom : (expr own).From used part) :
      part.AllPaths fun edges => holds (levels + 1) level (edge :: edges) :=
    fun edges node path => law.nested nests (inside own part isFrom edges node path)
  have node {form : Form Expr} {span : Span}
      (below : ∀ edge part, (edge, part) ∈ form.edges →
        part.AllPaths fun edges => holds (levels + 1) level (edge :: edges)) :
      (Expr.node form span).AllPaths (holds (levels + 1) level) :=
    Expr.allPaths_iff.mpr ⟨law.alone, below⟩
  cases made with
  | leaf stated => exact Expr.allPaths_of_children_eq_nil (children_of_leaf? stated) law.alone
  | reference isTarget => exact Expr.allPaths_of_children_eq_nil isTarget.children_eq_nil law.alone
  | @calculate target filters span isTarget parts =>
    refine node fun edge part member => ?_
    rcases List.mem_cons.mp member with same | member
    · cases same
      exact Expr.allPaths_of_children_eq_nil isTarget.children_eq_nil law.target
    · obtain ⟨filter, isFilter, same⟩ := List.mem_map.mp member
      cases same
      exact nested rfl (parts part isFilter)
  | call _ _ parts =>
    refine node fun edge part member => ?_
    obtain ⟨argument, isArgument, same⟩ := List.mem_map.mp member
    cases same
    exact nested rfl (parts part isArgument)
  | unary isFrom =>
    refine node fun edge part member => ?_
    cases List.mem_singleton.mp member
    exact nested rfl isFrom
  | bindings _ parts isFrom =>
    refine node fun edge part member => ?_
    rcases List.mem_append.mp member with isValue | isBody
    · obtain ⟨binding, isBinding, same⟩ := List.mem_map.mp isValue
      cases same
      exact nested rfl (parts binding isBinding).2
    · cases List.mem_singleton.mp isBody
      exact nested rfl isFrom
  | @group part span isFrom =>
    apply Expr.AllPaths.withSpan
    exact fun edges node path => law.group (inside 0 part isFrom edges node path)
  | tuple _ parts =>
    refine node fun edge part member => ?_
    obtain ⟨value, isValue, same⟩ := List.mem_map.mp member
    cases same
    exact nested rfl (parts part isValue)
  | table _ parts =>
    refine node fun edge part member => ?_
    obtain ⟨cell, isCell, same⟩ := List.mem_map.mp member
    cases same
    obtain ⟨row, isRow, isCell⟩ := List.mem_flatten.mp isCell
    obtain ⟨element, isFrom, makes⟩ := parts row isRow
    exact allPaths_cell law (inside 0 element isFrom) makes isCell
  | dataTable _ parts =>
    refine node fun edge part member => ?_
    obtain ⟨value, isValue, same⟩ := List.mem_map.mp member
    cases same
    obtain ⟨cell, isCell, isValue⟩ := List.mem_filterMap.mp isValue
    obtain ⟨row, isRow, isCell⟩ := List.mem_flatten.mp isCell
    exact nested rfl ((parts row isRow).2 cell isCell part isValue)

variable {operand : Rule Expr} {levels : Nat}
  (ofOperand : ∀ ⦃used value next⦄, operand used value next →
    ∀ level, value.AllPaths (holds levels level))
include ofOperand

/-- Climbing keeps a law that holds on the left. -/
theorem Climbing.allPaths {level : Nat} {left whole : Expr} {used : List Token} {next : TokenKind}
    (reading : Climbing operand level left used whole next)
    (onLeft : left.AllPaths (holds levels level)) : whole.AllPaths (holds levels level) := by
  induction reading with
  | done => exact onLeft
  | @step level left first right whole sign operator used middle later next _ binds reading _ _
      ihTighter ihOthers =>
    have onRight := ihTighter (ofOperand reading _)
    refine ihOthers (Expr.allPaths_iff.mpr ⟨onLeft [] left .here, fun edge part member => ?_⟩)
    rcases List.mem_cons.mp member with same | member
    · cases same
      exact fun edges node path => law.left (onLeft edges node path)
    · cases List.mem_singleton.mp member
      exact fun edges node path => law.right binds (onRight edges node path)

theorem Expression.allPaths {level : Nat} {used : List Token} {whole : Expr} {next : TokenKind}
    (reading : Expression operand level used whole next) : whole.AllPaths (holds levels level) := by
  cases reading with
  | intro reading others => exact others.allPaths law ofOperand (ofOperand reading level)

omit ofOperand in
/-- **A law for paths holds of all operands** with the levels that they may open. -/
theorem operandRule_allPaths ⦃used : List Token⦄ ⦃value : Expr⦄ ⦃next : TokenKind⦄
    (reading : operandRule levels used value next) (level : Nat) :
    value.AllPaths (holds levels level) := by
  induction levels generalizing used value next level with
  | zero => cases reading
  | succ levels ih =>
    refine (Operand.made reading).allPaths law (fun own part isFrom => ?_) level
    obtain ⟨inner, _, _, reading⟩ := isFrom
    exact reading.allPaths law ih

end Law

end Rule

/-- **A law for paths holds of accepted expressions**, with all levels that there are. -/
theorem PathLaw.of_readExpression {holds : (levels level : Nat) → List Edge → Prop}
    (law : PathLaw holds) {source : String} {expr : Expr}
    (accepted : readExpression source = .ok expr) : expr.AllPaths (holds maxNesting 0) := by
  have read := (readExpression_ok_iff.mp accepted).1
  have whole := yields_expression_iff.mp (expressionOfTokens_ok_iff.mp read)
  exact whole.allPaths law (Rule.operandRule_allPaths law)

end DaxScript
