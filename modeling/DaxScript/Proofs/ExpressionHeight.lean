import DaxScript.Proofs.Grammar.Path
import DaxScript.Proofs.Grammar.PrintedOperand

/-!
# How far down the nodes of an expression are

Nesting is limited, and between two levels of nesting there are at most as many steps to the right
as there are levels of operators.  Steps to the left are another matter.  Operators of one level
associate to the left, and a chain of them opens no level, so an accepted expression may be of any
height (`Chain.accepted`).

This is the only way to get far down.  If steps to the left that follow each other count as one
then no node of an accepted expression is more than 2048 steps away from the root
(`readExpression_steps_le`).  At each level of nesting there are at most fourteen: one into the
operand, one to the left in front of it, and two for each level of operators.
-/

set_option autoImplicit false

namespace DaxScript

open Production

/-! ## Steps -/

/-- How many steps a path takes, when those to the left that follow each other count as one. -/
def Edge.steps : List Edge → Nat
  | [] => 0
  | edge :: edges => steps edges + if edge = .left ∧ edges.head? = some .left then 0 else 1

namespace Edge

variable (edges : List Edge)

theorem steps_cons_of_ne_left {edge : Edge} (noLeft : edge ≠ .left) :
    steps (edge :: edges) = steps edges + 1 := by
  rw [steps, if_neg fun both => noLeft both.1]

theorem steps_left_cons_of_ne_left {edge : Edge} (noLeft : edge ≠ .left) :
    steps (.left :: edge :: edges) = steps edges + 2 := by
  rw [steps, if_neg fun both => noLeft (Option.some.inj both.2), steps_cons_of_ne_left edges noLeft]

theorem steps_le_steps_cons (edge : Edge) : steps edges ≤ steps (edge :: edges) :=
  Nat.le_add_right _ _

end Edge

namespace BinaryOperator

/-- How many levels of operators there are from a level on. -/
def levelsFrom (level : Nat) : Nat :=
  [1, 2, 4, 5, 6, 7].countP (level ≤ ·)

theorem levelsFrom_le (level : Nat) : levelsFrom level ≤ 6 :=
  List.countP_le_length

/-- Above the level of an operator there are fewer levels. -/
theorem levelsFrom_succ_lt {operator : BinaryOperator} {level : Nat}
    (binds : level ≤ operator.level) : levelsFrom (operator.level + 1) < levelsFrom level := by
  have own : levelsFrom (operator.level + 1) < levelsFrom operator.level := by
    cases operator <;> decide
  have more : levelsFrom operator.level ≤ levelsFrom level := by
    apply List.countP_mono_left
    intro other _ above
    simp only [decide_eq_true_eq] at above ⊢
    omega
  omega

end BinaryOperator

/-- The law that bounds the steps.  It counts a step to the left in front of the path as well,
because climbing may put the root of a path to the left of any number of operators. -/
theorem pathLaw_steps : PathLaw fun levels level edges =>
    Edge.steps (.left :: edges) ≤ 14 * levels + 2 * BinaryOperator.levelsFrom level where
  left inner := inner
  right {levels level operator edges} binds inner := by
    have fewer := BinaryOperator.levelsFrom_succ_lt binds
    have shorter := Edge.steps_le_steps_cons edges .left
    rw [Edge.steps_left_cons_of_ne_left edges (by decide)]
    omega
  alone := by
    have single : Edge.steps [.left] = 1 := rfl
    omega
  target := by
    have both : Edge.steps [.left, .target] = 2 := rfl
    omega
  group inner := by
    have few := BinaryOperator.levelsFrom_le 0
    omega
  nested {levels level own edge edges} nests inner := by
    have few := BinaryOperator.levelsFrom_le own
    have shorter := Edge.steps_le_steps_cons edges .left
    rw [Edge.steps_left_cons_of_ne_left edges (by rintro rfl; cases nests)]
    omega
  row {levels level edges} inner := by
    have few := BinaryOperator.levelsFrom_le 0
    rw [Edge.steps_left_cons_of_ne_left edges (by decide)] at inner ⊢
    omega

/-- **All nodes of an accepted expression are within 2048 steps of the root**, if steps to the left
operand of a binary operator that follow each other count as one. -/
theorem readExpression_steps_le {source : String} {expr : Expr}
    (accepted : readExpression source = .ok expr) :
    ∀ edges node, expr.Path edges node → Edge.steps edges ≤ 2048 := by
  intro edges node path
  have few := BinaryOperator.levelsFrom_le 0
  have shorter := Edge.steps_le_steps_cons edges .left
  have bounded := pathLaw_steps.of_readExpression accepted edges node path
  rw [maxNesting] at bounded
  omega

/-- The way to the first name in `x - y - -z` counts as one step. -/
theorem readExpression_steps_le_chain :
    let inner := Expr.node (.binary .subtract (.node (.tableName "x") ⟨0, 1⟩)
      (.node (.tableName "y") ⟨4, 5⟩)) ⟨0, 5⟩
    let expr := Expr.node (.binary .subtract inner
      (.node (.unary .negate (.node (.tableName "z") ⟨9, 10⟩)) ⟨8, 10⟩)) ⟨0, 10⟩
    readExpression "x - y - -z" = .ok expr ∧ Edge.steps [.left, .left] = 1 ∧
      ∀ edges node, expr.Path edges node → Edge.steps edges ≤ 2048 := by
  intro inner expr
  have accepted : readExpression "x - y - -z" = .ok expr := by
    cbv
  exact ⟨accepted, rfl, readExpression_steps_le accepted⟩

/-! ## Chains -/

namespace Chain

open Piece Rule

/-- Further summands. -/
def summands : (length : Nat) → List Piece
  | 0 => []
  | length + 1 => space :: ofSymbol .plus :: space :: ofWord ['x'] :: summands length

/-- `x + x + ... + x` with as many signs. -/
def source (length : Nat) : String :=
  String.ofList ('x' :: (List.replicate length " + x".toList).flatten)

theorem ofWord_x : ofWord ['x'] = token (.identifier "x") ['x'] none := by
  decide

theorem text_summands (length : Nat) :
    text (summands length) = (List.replicate length " + x".toList).flatten := by
  induction length with
  | zero => rfl
  | succ length ih =>
    rw [List.replicate_succ, List.flatten_cons, ← ih]
    rfl

theorem tidy (length : Nat) : Tidy (ofWord ['x'] :: summands length) := by
  have isWord : isWord ['x'] = true := by decide
  induction length with
  | zero => exact tidy_ofWord isWord
  | succ length ih =>
    refine .append (tidy_ofWord isWord) (Tidy.behindSpace ?_) (separated_space _)
    exact .append (tidy_ofSymbol .plus) ih.behindSpace (separated_space _)

/-- What stands behind an expression is joined to it, and the expression is on the left. -/
theorem climbs (levels length : Nat) (position : Position) (left : Expr) :
    ∃ whole, Climbing (operandRule (levels + 1)) 0 left (tokens position (summands length)) whole
        .endOfInput ∧ whole.Path (List.replicate length .left) left := by
  induction length generalizing position left with
  | zero => exact ⟨left, .doneAt 0 left rfl, .here⟩
  | succ length ih =>
    simp only [summands, tokens_space, tokens_ofSymbol, ofWord_x, tokens_identifier]
    generalize position.advanceAll [' '] = front
    generalize (front.advanceAll Symbol.plus.spelling.toList).advanceAll [' '] = place
    let sign := Token.place (.symbol .plus) front Symbol.plus.spelling.toList
    let name := Token.place (.identifier "x") place ['x']
    let operand := Expr.node (.tableName "x") name.span
    obtain ⟨whole, reading, path⟩ :=
      ih (place.advanceAll ['x']) (left.join .add operand)
    -- Behind a summand comes the next sign or the end.
    have alone : name.kind.standsAlone
        (kindAfter (tokens (place.advanceAll ['x']) (summands length)) .endOfInput) = true := by
      cases length <;> rfl
    have loose : ∀ operator, BinaryOperator.ofKind?
        (kindAfter (tokens (place.advanceAll ['x']) (summands length)) .endOfInput) =
          some operator → operator.level < 7 := by
      cases length <;> intro operator found <;> cases found
      decide
    have first : operandRule (levels + 1) [name] operand _ := .leaf rfl alone
    have joins : BinaryOperator.ofKind? sign.kind = some .add := rfl
    have climbed := Climbing.step joins (Nat.zero_le _) first (.done loose) reading
    refine ⟨whole, climbed, ?_⟩
    rw [List.replicate_succ']
    exact path.trans (.down (.head _) .here)

/-- **Chains are accepted at any length**, and their first name is as far down. -/
theorem accepted (length : Nat) :
    ∃ expr, readExpression (source length) = .ok expr ∧
      ∃ node, (length, node) ∈ expr.subtrees 0 := by
  let name := Token.place (.identifier "x") .start ['x']
  let operand := Expr.node (.tableName "x") name.span
  obtain ⟨whole, others, path⟩ :=
    climbs (maxNesting - 1) length (Position.start.advanceAll ['x']) operand
  have first : operandRule maxNesting [name] operand
      (kindAfter (tokens (Position.start.advanceAll ['x']) (summands length)) .endOfInput) :=
    .leaf rfl (by cases length <;> rfl)
  have reading : ExpressionOfLevel 0
      (tokens .start (ofWord ['x'] :: summands length)) whole .endOfInput := by
    rw [ofWord_x, tokens_identifier]
    exact .intro first others
  have text : (source length).toList = text (ofWord ['x'] :: summands length) := by
    rw [source, String.toList_ofList, text_cons, text_summands]
    rfl
  refine ⟨whole, readExpression_of_pieces text (tidy length).together (tidy length).sound reading,
    operand, Expr.mem_subtrees_iff.mpr ⟨_, path, ?_⟩⟩
  rw [List.length_replicate, Nat.zero_add]

end Chain

/-- The first name of a chain of 2049 signs is more than 2048 edges away from the root. -/
theorem exists_chain_height :
    ∃ expr, readExpression (Chain.source 2049) = .ok expr ∧
      ∃ depth node, (depth, node) ∈ expr.subtrees 0 ∧ 2048 < depth := by
  obtain ⟨expr, accepted, node, member⟩ := Chain.accepted 2049
  exact ⟨expr, accepted, 2049, node, member, by decide⟩

end DaxScript
