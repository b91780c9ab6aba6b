import DaxScript.Proofs.Grammar.OperandDescription

/-!
# Rules for expressions

An expression of a least level is an operand and what climbing joins to it.  Climbing reads an
operator of at least the level, an operand, and what binds tighter to that operand, joins them to
the expression on the left, and goes on from there; it ends before a token that is no operator of
at least the level.

An operand opens one level of nesting and contains expressions over the operands of one level
less, so the rule for operands is defined by recursion on the levels, as the production is.

Which tokens are read does not depend on how the next statement begins: an expression stays the same
when the input is cut off behind it (`Rule.expressionOfLevel_cuttable`).
-/

set_option autoImplicit false

namespace DaxScript

open Production

namespace Rule

/-- Operators of at least a level and their right operands, joined to an expression on the
left. -/
inductive Climbing (operand : Rule Expr) : Nat → Expr → Rule Expr where
  | done {level : Nat} {left : Expr} {next : TokenKind}
      (stops : ∀ operator, BinaryOperator.ofKind? next = some operator → operator.level < level) :
      Climbing operand level left [] left next
  | step {level : Nat} {left first right whole : Expr} {sign : Token}
      {operator : BinaryOperator} {used middle later : List Token} {next : TokenKind}
      (joins : BinaryOperator.ofKind? sign.kind = some operator) (binds : level ≤ operator.level)
      (reading : operand used first (kindAfter middle (kindAfter later next)))
      (tighter : Climbing operand (operator.level + 1) first middle right (kindAfter later next))
      (others : Climbing operand level (left.join operator right) later whole next) :
      Climbing operand level left (sign :: (used ++ (middle ++ later))) whole next

/-- An operand and what climbing joins to it. -/
inductive Expression (operand : Rule Expr) (level : Nat) : Rule Expr where
  | intro {first whole : Expr} {used later : List Token} {next : TokenKind}
      (reading : operand used first (kindAfter later next))
      (others : Climbing operand level first later whole next) :
      Expression operand level (used ++ later) whole next

/-- An operand that opens at most the given number of levels. -/
def operandRule : (levels : Nat) → Rule Expr
  | 0 => fun _ _ _ => False
  | levels + 1 => Operand (Expression (operandRule levels))

/-- An expression of a least level that is not nested too deeply. -/
abbrev ExpressionOfLevel (level : Nat) : Rule Expr :=
  Expression (operandRule maxNesting) level

/-! ## More operands give more expressions -/

section Within

variable {operand other : Rule Expr}

theorem Climbing.mono (within : operand.Within other) (level : Nat) (left : Expr) :
    (Climbing operand level left).Within (Climbing other level left) := by
  intro used whole next reading
  induction reading with
  | done stops => exact .done stops
  | step joins binds reading _ _ tighter others =>
    exact .step joins binds (within reading) tighter others

theorem Expression.mono (within : operand.Within other) (level : Nat) :
    (Expression operand level).Within (Expression other level) := by
  intro used whole next reading
  cases reading with
  | intro reading others => exact .intro (within reading) (.mono within level _ others)

theorem operandRule_mono {levels more : Nat} (fewer : levels ≤ more) :
    (operandRule levels).Within (operandRule more) := by
  induction levels generalizing more with
  | zero =>
    intro _ _ _ reading
    cases reading
  | succ levels ih =>
    obtain ⟨more, rfl⟩ := Nat.exists_eq_add_of_lt fewer
    exact Operand.mono fun level => Expression.mono (ih (by omega)) level

end Within

/-! ## Expressions may be cut off behind -/

/-- Climbing ends before a token that is no operator. -/
theorem Climbing.doneBefore {operand : Rule Expr} {last : TokenKind} (level : Nat) (left : Expr)
    (noOperator : BinaryOperator.ofKind? last = none) :
    Climbing operand level left [] left last := by
  refine .done fun operator found => ?_
  rw [noOperator] at found
  cases found

/-- An operand is an expression where no operator follows. -/
theorem Expression.of_operand {operand : Rule Expr} {level : Nat} {used : List Token}
    {value : Expr} {next : TokenKind} (reading : operand used value next)
    (noOperator : BinaryOperator.ofKind? next = none) :
    Expression operand level used value next := by
  have whole : Expression operand level (used ++ []) value next :=
    .intro reading (.doneBefore level value noOperator)
  rwa [List.append_nil] at whole

section Ends

variable {kinds : TokenKind → Prop}
  (noOperator : ∀ last, kinds last → BinaryOperator.ofKind? last = none)
include noOperator

section Climbing

variable {operand : Rule Expr} (stays : operand.StaysBefore kinds)
include stays

theorem Climbing.staysBefore (level : Nat) (left : Expr) :
    (Climbing operand level left).StaysBefore kinds := by
  intro used whole next last reading isOne
  induction reading with
  | done => exact .doneBefore _ _ (noOperator last isOne)
  | @step level left first right whole sign operator used middle later next joins binds reading
      tighter others ihTighter ihOthers =>
    have operandStays : operand used first (kindAfter middle (kindAfter later last)) := by
      rw [← kindAfter_append] at reading ⊢
      exact stays.behind reading isOne
    have tighterStays :
        Climbing operand (operator.level + 1) first middle right (kindAfter later last) := by
      cases later with
      | nil => exact ihTighter
      | cons => exact tighter
    exact .step joins binds operandStays tighterStays ihOthers

theorem Expression.staysBefore (level : Nat) : (Expression operand level).StaysBefore kinds := by
  intro used whole next last reading isOne
  cases reading with
  | intro reading others =>
    exact .intro (stays.behind reading isOne)
      (Climbing.staysBefore noOperator stays level _ others isOne)

end Climbing

theorem operandRule_staysBefore
    (nothing : ∀ last, kinds last →
      isBracketName last = false ∧ isSymbol .leftParen last = false) (levels : Nat) :
    (operandRule levels).StaysBefore kinds := by
  induction levels with
  | zero =>
    intro _ _ _ _ reading
    cases reading
  | succ levels ih =>
    exact Operand.staysBefore nothing fun level => Expression.staysBefore noOperator ih level

end Ends

/-- No token that ends a statement is an operator. -/
theorem ofKind?_of_endsStatement {last : TokenKind} (ends : endsStatement last = true) :
    BinaryOperator.ofKind? last = none := by
  cases last with
  | symbol sign => cases sign <;> first | rfl | cases ends
  | keyword word => cases word <;> first | rfl | cases ends
  | _ => rfl

/-- Climbing ends before a token that ends a statement. -/
theorem Climbing.doneAt {operand : Rule Expr} {last : TokenKind} (level : Nat) (left : Expr)
    (ends : endsStatement last = true) : Climbing operand level left [] left last :=
  .doneBefore level left (ofKind?_of_endsStatement ends)

section Cuttable

variable {operand : Rule Expr} (cut : operand.Cuttable)
include cut

theorem Climbing.cuttable (level : Nat) (left : Expr) :
    (Climbing operand level left).Cuttable :=
  Climbing.staysBefore (fun _ => ofKind?_of_endsStatement) cut level left

theorem Expression.cuttable (level : Nat) : (Expression operand level).Cuttable :=
  Expression.staysBefore (fun _ => ofKind?_of_endsStatement) cut level

end Cuttable

theorem operandRule_cuttable (levels : Nat) : (operandRule levels).Cuttable :=
  operandRule_staysBefore (fun _ => ofKind?_of_endsStatement)
    (fun _ => nothingFollows_of_endsStatement) levels

theorem expressionOfLevel_cuttable (level : Nat) : (ExpressionOfLevel level).Cuttable :=
  Expression.cuttable (operandRule_cuttable maxNesting) level

end Rule

/-! ## The rules describe the productions -/

section Description

variable {rule : Rule Expr} {operand : Production Expr 1} {tokens rest : List Token}

/-- The two ways in which climbing reads. -/
theorem yields_climbFrom_iff {level : Nat} {left whole : Expr} :
    Yields (climbFrom operand level left tokens) whole rest ↔
      ((∀ operator, BinaryOperator.ofKind? (nextKind tokens) = some operator →
          operator.level < level) ∧ whole = left ∧ rest = tokens) ∨
      ∃ sign others operator first after right left', tokens = sign :: others ∧
        BinaryOperator.ofKind? sign.kind = some operator ∧ level ≤ operator.level ∧
        Yields (operand others) first after ∧
        Yields (climbFrom operand (operator.level + 1) first after) right left' ∧
        Yields (climbFrom operand level (left.join operator right) left') whole rest := by
  cases tokens with
  | nil =>
    rw [climbFrom, Yields.ok_iff]
    constructor
    · rintro ⟨rfl, rfl⟩
      refine .inl ⟨?_, rfl, rfl⟩
      intro operator found
      cases found
    · rintro (⟨_, rfl, rfl⟩ | ⟨_, _, _, _, _, _, _, same, _⟩)
      · exact ⟨rfl, rfl⟩
      · cases same
  | cons sign others =>
    rw [climbFrom]
    cases found : BinaryOperator.ofKind? sign.kind with
    | none =>
      simp only [nextKind_cons, found, Yields.ok_iff]
      constructor
      · rintro ⟨rfl, rfl⟩
        refine .inl ⟨?_, rfl, rfl⟩
        intro operator found
        cases found
      · rintro (⟨_, rfl, rfl⟩ | ⟨_, _, _, _, _, _, _, same, joins, _⟩)
        · exact ⟨rfl, rfl⟩
        · obtain ⟨rfl, rfl⟩ := List.cons.inj same
          rw [found] at joins
          cases joins
    | some operator =>
      simp only [nextKind_cons, found, Option.some.injEq]
      split
      · next loose =>
        rw [Yields.ok_iff]
        constructor
        · rintro ⟨rfl, rfl⟩
          exact .inl ⟨fun _ same => same ▸ loose, rfl, rfl⟩
        · rintro (⟨_, rfl, rfl⟩ | ⟨_, _, _, _, _, _, _, same, joins, binds, _⟩)
          · exact ⟨rfl, rfl⟩
          · obtain ⟨rfl, rfl⟩ := List.cons.inj same
            cases found.symm.trans joins
            omega
      · next tight =>
        constructor
        · intro reading
          obtain ⟨first, after, _, step₁, reading⟩ := reading.bind
          obtain ⟨right, left', _, step₂, reading⟩ := reading.bind
          obtain ⟨whole, last, _, step₃, reading⟩ := reading.bind
          obtain ⟨rfl, rfl⟩ := Yields.ok_iff.mp reading
          exact .inr ⟨sign, others, operator, first, after, right, left', rfl, found, by omega,
            step₁, step₂, step₃⟩
        · rintro (⟨stops, _⟩ | ⟨_, _, _, first, after, right, left', same, joins, _, step₁, step₂,
            step₃⟩)
          · exact absurd (stops operator rfl) tight
          · obtain ⟨rfl, rfl⟩ := List.cons.inj same
            cases found.symm.trans joins
            refine step₁.andThen fun _ => ?_
            refine step₂.andThen fun _ => ?_
            refine step₃.andThen fun _ => ?_
            exact Yields.of_ok

variable (described : Describes rule operand)
include described

theorem describes_climbFrom (level : Nat) (left : Expr) :
    Describes (.Climbing rule level left) (climbFrom operand level left) where
  sound {tokens whole rest} reading := by
    -- Both recursive readings begin behind an operator, so the tokens get fewer.
    induction counted : tokens.length using Nat.strongRecOn generalizing tokens level left whole rest
      with
    | ind size ih =>
      rcases yields_climbFrom_iff.mp reading with
        ⟨stops, rfl, rfl⟩ |
        ⟨sign, others, operator, first, after, right, left', rfl, joins, binds, step₁, step₂, step₃⟩
      · exact ⟨[], rfl, .done stops⟩
      · obtain ⟨used, rfl, readFirst⟩ := described.sound step₁
        have shorter : after.length < size := by
          simp only [List.length_cons, List.length_append] at counted
          omega
        obtain ⟨middle, rfl, tighter⟩ := ih after.length shorter _ _ step₂ rfl
        have shorter : left'.length < size := by
          simp only [List.length_append] at shorter
          omega
        obtain ⟨later, rfl, more⟩ := ih left'.length shorter _ _ step₃ rfl
        rw [nextKind_append, nextKind_append] at readFirst
        rw [nextKind_append] at tighter
        exact ⟨sign :: (used ++ (middle ++ later)), by simp,
          .step joins binds readFirst tighter more⟩
  complete {used whole rest} reading := by
    generalize following : nextKind rest = next at reading
    induction reading generalizing rest with
    | done stops => exact yields_climbFrom_iff.mpr (.inl ⟨by simpa [following] using stops, rfl, rfl⟩)
    | @step level left first right whole sign operator used middle later next joins binds reading
        _ _ ihTighter ihOthers =>
      refine yields_climbFrom_iff.mpr (.inr ⟨sign, used ++ (middle ++ (later ++ rest)), operator,
        first, middle ++ (later ++ rest), right, later ++ rest, by simp, joins, binds, ?_, ?_,
        ihOthers following⟩)
      · exact described.complete (by simpa [following] using reading)
      · exact ihTighter (by simp [following])

theorem describes_climb (level : Nat) :
    Describes (.Expression rule level) (climb operand level) where
  sound reading := by
    obtain ⟨first, _, _, earlier, reading⟩ := reading.bind
    obtain ⟨whole, _, _, later, reading⟩ := reading.bind
    obtain ⟨rfl, rfl⟩ := Yields.ok_iff.mp reading
    obtain ⟨used, rfl, readFirst⟩ := described.sound earlier
    obtain ⟨more, rfl, others⟩ := (describes_climbFrom described level first).sound later
    rw [nextKind_append] at readFirst
    exact ⟨used ++ more, by simp, .intro readFirst others⟩
  complete reading := by
    cases reading with
    | intro reading others =>
      rw [← nextKind_append] at reading
      rw [List.append_assoc]
      refine (described.complete reading).andThen fun _ => ?_
      refine ((describes_climbFrom described level _).complete others).andThen fun _ => ?_
      exact Yields.of_ok

end Description

theorem describes_operand (levels : Nat) : Describes (.operandRule levels) (operand levels) := by
  induction levels with
  | zero => exact ⟨fun reading => absurd reading Yields.not_error, fun reading => reading.elim⟩
  | succ levels ih => exact describes_operandOf fun level => describes_climb ih level

/-- **The rule for expressions describes their production**, at every least level. -/
theorem describes_expressionOfLevel (level : Nat) :
    Describes (.ExpressionOfLevel level) (expressionOfLevel level) :=
  describes_climb (describes_operand maxNesting) level

end DaxScript
