import Mathlib.Logic.Basic
import DaxScript.Grammar.Climbing

/-!
# How operators are grouped

Numbers with operators between and in front of them are read as a tree.  Here is what such trees
are, what their items are when they are written down from left to right, and which trees group
their items by the levels of the operators (`OperatorTree.Grouped`).  The levels are written out
here (`BinaryOperator.rank`), not taken from the table that climbing looks them up in.

An operator on the right of a tree takes in as much of the tree as it may.  A tree is open to a
level when some operator at its right end would rather have its operand joined by an operator of
that level than give it up (`OperatorTree.openTo`).  A grouped tree may be joined at its right end
to an operator and an operand, at the place that this decides, and is then grouped again
(`OperatorTree.exists_joined`).  So all items can be grouped (`Chain.exists_grouped`).
-/

set_option autoImplicit false

namespace DaxScript

/-! ## Trees and what they are written as -/

/-- A part of an expression of numbers and operators, as it is written. -/
inductive Item where
  | number (value : Binary64)
  /-- An operator in front of an operand. -/
  | sign (operator : UnaryOperator)
  /-- An operator between two operands. -/
  | joint (operator : BinaryOperator)
  deriving DecidableEq

/-- An expression of numbers and operators. -/
inductive OperatorTree where
  | number (value : Binary64)
  | unary (operator : UnaryOperator) (operand : OperatorTree)
  | binary (operator : BinaryOperator) (left right : OperatorTree)
  deriving DecidableEq

/-- The level of an operator in the language: `OR` is loosest, then come `AND`, the comparisons
together with `IN`, joining of texts, addition and multiplication. -/
def BinaryOperator.rank : BinaryOperator → Nat
  | logicalOr => 1
  | logicalAnd => 2
  | equal => 4
  | notEqual => 4
  | less => 4
  | lessEqual => 4
  | greater => 4
  | greaterEqual => 4
  | within => 4
  | concat => 5
  | add => 6
  | subtract => 6
  | multiply => 7
  | divide => 7

/-- The table that climbing goes by has the levels of the language. -/
theorem BinaryOperator.level_eq_rank (operator : BinaryOperator) :
    operator.level = operator.rank := by
  cases operator <;> rfl

namespace OperatorTree

/-- The items of a tree from left to right. -/
def items : OperatorTree → List Item
  | number value => [.number value]
  | unary operator operand => .sign operator :: operand.items
  | binary operator left right => left.items ++ .joint operator :: right.items

/-- The level of the operator at the root, if that is an operator between operands. -/
def level? : OperatorTree → Option Nat
  | binary operator _ _ => some operator.rank
  | _ => none

/-- Whether `NOT` is met on the way from the root to the last number. -/
def endsInNot : OperatorTree → Bool
  | number _ => false
  | unary operator operand => operator == .logicalNot || operand.endsInNot
  | binary _ _ right => right.endsInNot

/-- The trees in which operators of higher levels bind tighter and operators of one level from the
left.  The operand of `NOT` is joined by comparisons or tighter, the operand of a sign by nothing,
and no comparison or tighter operator follows an operand that ends in `NOT`. -/
def Grouped : OperatorTree → Prop
  | number _ => True
  | unary .logicalNot operand => (∀ level ∈ operand.level?, 4 ≤ level) ∧ operand.Grouped
  | unary _ operand => operand.level? = none ∧ operand.Grouped
  | binary operator left right =>
    (∀ level ∈ left.level?, operator.rank ≤ level) ∧
      (∀ level ∈ right.level?, operator.rank < level) ∧
      (4 ≤ operator.rank → left.endsInNot = false) ∧ left.Grouped ∧ right.Grouped

/-- How many operators stand in front of operands. -/
def signs : OperatorTree → Nat
  | number _ => 0
  | unary _ operand => operand.signs + 1
  | binary _ left right => left.signs + right.signs

/-! ## Trees that are open to an operator -/

/-- Whether an operator of a level behind a tree would be taken in by an operator of the tree. -/
def openTo (level : Nat) : OperatorTree → Bool
  | number _ => false
  | unary operator operand => operator.operandLevel ≤ level || operand.openTo level
  | binary operator _ right => operator.rank < level || right.openTo level

/-- The level between `AND` and the comparisons is kept for `NOT`, and none is above seven. -/
theorem rank_bounds (operator : BinaryOperator) : operator.rank ≠ 3 ∧ operator.rank ≤ 7 := by
  cases operator <;> decide

theorem exists_of_level? {tree : OperatorTree} {level : Nat} (found : level ∈ tree.level?) :
    ∃ operator : BinaryOperator, operator.rank = level := by
  cases tree with
  | binary operator => exact ⟨operator, by simpa [level?] using found⟩
  | _ => cases found

/-- A tree with an operator in front is grouped when the operator takes nothing looser than its
operands. -/
theorem grouped_unary_iff {operator : UnaryOperator} {operand : OperatorTree} :
    (unary operator operand).Grouped ↔
      (∀ level ∈ operand.level?, operator.operandLevel ≤ level) ∧ operand.Grouped := by
  have none : operand.level? = none ↔ ∀ level ∈ operand.level?, 8 ≤ level := by
    rw [Option.eq_none_iff_forall_not_mem]
    refine forall₂_congr fun level found => ?_
    obtain ⟨operator, rfl⟩ := exists_of_level? found
    have := rank_bounds operator
    simp only [false_iff]
    omega
  cases operator with
  | logicalNot =>
    refine and_congr_left fun _ => forall₂_congr fun level found => ?_
    obtain ⟨operator, rfl⟩ := exists_of_level? found
    have := rank_bounds operator
    simp only [UnaryOperator.operandLevel]
    omega
  | negate => exact and_congr_left fun _ => none
  | plus => exact and_congr_left fun _ => none

/-- **A grouped tree gives itself up to an operator** that binds no tighter than its root, unless
that is a comparison or tighter and the tree ends in `NOT`. -/
theorem openTo_eq_false_iff {tree : OperatorTree} (grouped : tree.Grouped)
    (operator : BinaryOperator) :
    tree.openTo operator.rank = false ↔ (∀ level ∈ tree.level?, operator.rank ≤ level) ∧
      (4 ≤ operator.rank → tree.endsInNot = false) := by
  have bounds := rank_bounds operator
  induction tree with
  | number value => simp [openTo, level?, endsInNot]
  | unary sign operand ih =>
    obtain ⟨tight, inner⟩ := grouped_unary_iff.mp grouped
    have closed : _ ↔ _ := ih inner
    have noLevel : ∀ level ∈ (unary sign operand).level?, operator.rank ≤ level := by
      intro level found
      cases found
    -- Where the operator is too loose for the operand, so is all that joins the operand.
    have tighter (loose : operator.rank < sign.operandLevel) :
        ∀ level ∈ operand.level?, operator.rank ≤ level := by
      intro level found
      have := tight level found
      omega
    rw [openTo, Bool.or_eq_false_iff, decide_eq_false_iff_not, Nat.not_le, closed, endsInNot,
      Bool.or_eq_false_iff, and_iff_right noLevel]
    cases sign with
    | logicalNot =>
      simp only [UnaryOperator.operandLevel, beq_self_eq_true, Bool.true_eq_false, false_and,
        imp_false, Nat.not_le] at tighter ⊢
      exact ⟨fun both => by omega, fun loose => ⟨by omega, tighter (by omega), by omega⟩⟩
    | negate | plus =>
      have loose : operator.rank < 8 := by omega
      exact ⟨fun both some => ⟨rfl, both.2.2 some⟩,
        fun noNot => ⟨loose, tighter loose, fun some => (noNot some).2⟩⟩
  | binary root left right _ ih =>
    obtain ⟨_, tighter, _, _, inner⟩ := grouped
    have closed : _ ↔ _ := ih inner
    rw [openTo, Bool.or_eq_false_iff, decide_eq_false_iff_not, Nat.not_lt, closed, endsInNot]
    simp only [level?, Option.mem_def, Option.some.injEq, forall_eq']
    refine and_congr_right fun loose => and_iff_right fun level found => ?_
    have := tighter level found
    omega

/-- A tree of two operands is grouped when the left one gives itself up and the right one is joined
tighter. -/
theorem grouped_binary_iff {operator : BinaryOperator} {left right : OperatorTree} :
    (binary operator left right).Grouped ↔ left.openTo operator.rank = false ∧
      (∀ level ∈ right.level?, operator.rank < level) ∧ left.Grouped ∧ right.Grouped := by
  constructor
  · rintro ⟨loose, tighter, noNot, isLeft, isRight⟩
    exact ⟨(openTo_eq_false_iff isLeft operator).mpr ⟨loose, noNot⟩, tighter, isLeft, isRight⟩
  · rintro ⟨closed, tighter, isLeft, isRight⟩
    obtain ⟨loose, noNot⟩ := (openTo_eq_false_iff isLeft operator).mp closed
    exact ⟨loose, tighter, noNot, isLeft, isRight⟩

/-! ## Grouping all items -/

/-- **A grouped tree may be joined to an operand on its right**, and is joined at the root unless
it is open to the operator. -/
theorem exists_joined {tree operand : OperatorTree} (grouped : tree.Grouped)
    (operator : BinaryOperator) (single : operand.level? = none) (isOperand : operand.Grouped) :
    ∃ joined : OperatorTree, joined.Grouped ∧
      joined.items = tree.items ++ .joint operator :: operand.items ∧
      joined.level? = if tree.openTo operator.rank then tree.level? else some operator.rank := by
  have tighter : ∀ level ∈ operand.level?, operator.rank < level := by
    intro level found
    rw [single] at found
    cases found
  have atRoot (tree : OperatorTree) (grouped : tree.Grouped)
      (closed : tree.openTo operator.rank = false) :
      ∃ joined : OperatorTree, joined.Grouped ∧
        joined.items = tree.items ++ .joint operator :: operand.items ∧
        joined.level? = if tree.openTo operator.rank then tree.level? else some operator.rank :=
    ⟨binary operator tree operand, grouped_binary_iff.mpr ⟨closed, tighter, grouped, isOperand⟩,
      rfl, by simp [closed, level?]⟩
  induction tree with
  | number value => exact atRoot _ grouped rfl
  | unary sign inner ih =>
    cases isOpen : (unary sign inner).openTo operator.rank with
    | false =>
      have joined := atRoot _ grouped isOpen
      rwa [isOpen] at joined
    | true =>
      obtain ⟨tight, isInner⟩ := grouped_unary_iff.mp grouped
      obtain ⟨joined, isJoined, written, level⟩ := ih isInner
      refine ⟨unary sign joined, grouped_unary_iff.mpr ⟨?_, isJoined⟩, ?_, rfl⟩
      · rw [level]
        split
        · exact tight
        · next closed =>
          rw [openTo, Bool.or_eq_true, decide_eq_true_iff] at isOpen
          simpa using isOpen.resolve_right closed
      · simp only [items, written, List.cons_append]
  | binary root left right _ ih =>
    cases isOpen : (binary root left right).openTo operator.rank with
    | false =>
      have joined := atRoot _ grouped isOpen
      rwa [isOpen] at joined
    | true =>
      obtain ⟨closedLeft, tight, isLeft, isRight⟩ := grouped_binary_iff.mp grouped
      obtain ⟨joined, isJoined, written, level⟩ := ih isRight
      refine ⟨binary root left joined,
        grouped_binary_iff.mpr ⟨closedLeft, ?_, isLeft, isJoined⟩, ?_, rfl⟩
      · rw [level]
        split
        · exact tight
        · next closed =>
          rw [openTo, Bool.or_eq_true, decide_eq_true_iff] at isOpen
          simpa using isOpen.resolve_right closed
      · simp only [items, written, List.append_assoc, List.cons_append]

end OperatorTree

/-- A number with operators in front. -/
structure SignedNumber where
  signs : List UnaryOperator
  value : Binary64

namespace SignedNumber

def items (operand : SignedNumber) : List Item :=
  operand.signs.map .sign ++ [.number operand.value]

/-- The operators in front of a number apply to it from the last one on. -/
theorem exists_grouped (operand : SignedNumber) :
    ∃ tree : OperatorTree, tree.Grouped ∧ tree.items = operand.items ∧ tree.level? = none := by
  obtain ⟨signs, value⟩ := operand
  induction signs with
  | nil => exact ⟨.number value, trivial, rfl, rfl⟩
  | cons sign signs ih =>
    obtain ⟨tree, grouped, written, single⟩ := ih
    refine ⟨.unary sign tree, OperatorTree.grouped_unary_iff.mpr ⟨?_, grouped⟩, ?_, rfl⟩
    · intro level found
      rw [single] at found
      cases found
    · rw [OperatorTree.items, written]
      rfl

end SignedNumber

/-- Numbers with operators between them, and possibly in front of each. -/
structure Chain where
  first : SignedNumber
  others : List (BinaryOperator × SignedNumber)

namespace Chain

/-- The items of a chain in their order. -/
def items (chain : Chain) : List Item :=
  chain.first.items ++ chain.others.flatMap fun link => .joint link.1 :: link.2.items

/-- **The items of every chain can be grouped.** -/
theorem exists_grouped (chain : Chain) :
    ∃ tree : OperatorTree, tree.Grouped ∧ tree.items = chain.items := by
  obtain ⟨first, others⟩ := chain
  obtain ⟨tree, grouped, written, -⟩ := first.exists_grouped
  rw [items, ← written]
  clear written
  dsimp only
  induction others generalizing tree with
  | nil => exact ⟨tree, grouped, (List.append_nil _).symm⟩
  | cons link others ih =>
    obtain ⟨operand, isOperand, operandWritten, single⟩ := link.2.exists_grouped
    obtain ⟨joined, isJoined, written, -⟩ :=
      OperatorTree.exists_joined grouped link.1 single isOperand
    obtain ⟨whole, isWhole, all⟩ := ih joined isJoined
    refine ⟨whole, isWhole, ?_⟩
    rw [all, written, operandWritten, List.flatMap_cons]
    simp only [List.append_assoc, List.cons_append]

end Chain

end DaxScript
