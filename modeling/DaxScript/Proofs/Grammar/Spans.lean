import DaxScript.Proofs.Grammar.ExpressionRule
import DaxScript.Proofs.Grammar.Moving
import DaxScript.Proofs.Token.Placement

/-!
# The spans of expressions

The tokens of a source stand one behind the other, and the span of an expression reaches from the
start of its first token to the end of its last one (`Rule.ExpressionOfLevel.covers`).  So the
least and the greatest offsets that the parser keeps while it joins spans are always those of the
outermost tokens.
-/

set_option autoImplicit false

namespace DaxScript

open Production

/-- A span reaches from the first of some tokens to the last. -/
def Span.Covers (span : Span) (tokens : List Token) : Prop :=
  ∃ first last, tokens.head? = some first ∧ tokens.getLast? = some last ∧
    span = ⟨first.span.start, last.span.stop⟩

namespace Span.Covers

variable {front behind : Span} {first last : List Token}

theorem single (token : Token) : token.span.Covers [token] :=
  ⟨token, token, rfl, rfl, rfl⟩

theorem start_eq {token : Token} {tokens : List Token} (covered : front.Covers (token :: tokens)) :
    front.start = token.span.start := by
  obtain ⟨opening, _, head, _, rfl⟩ := covered
  obtain rfl := Option.some.inj head
  rfl

/-- From the start of one span to the end of another. -/
theorem join (left : front.Covers first) (middle : List Token) (right : behind.Covers last) :
    Span.Covers ⟨front.start, behind.stop⟩ (first ++ (middle ++ last)) := by
  obtain ⟨opening, _, head, _, rfl⟩ := left
  obtain ⟨_, closing, _, tail, rfl⟩ := right
  exact ⟨opening, closing, by simp [head], by simp [tail], rfl⟩

/-- The smallest span over two that stand one behind the other. -/
theorem cover (left : front.Covers first) {middle : List Token} (right : behind.Covers last)
    (ordered : InOrder (first ++ (middle ++ last))) :
    (front.cover behind).Covers (first ++ (middle ++ last)) := by
  have joined := left.join middle right
  obtain ⟨opening, ending, head, lastOfFirst, rfl⟩ := left
  obtain ⟨beginning, closing, firstOfLast, tail, rfl⟩ := right
  have opens : opening ∈ first := List.mem_of_mem_head? (by simp [head])
  have ends : ending ∈ first := List.mem_of_getLast? lastOfFirst
  have begins : beginning ∈ last := List.mem_of_mem_head? (by simp [firstOfLast])
  have closes : closing ∈ last := List.mem_of_getLast? tail
  have openingFirst := ordered.stop_le opens (List.mem_append_right middle begins)
  have closingLast := ordered.stop_le ends (List.mem_append_right middle closes)
  have openingForward := ordered.forward opening (List.mem_append_left _ opens)
  have closingForward := ordered.right.right.forward closing closes
  have starts : min opening.span.start beginning.span.start = opening.span.start :=
    Nat.min_eq_left (by omega)
  have stops : max ending.span.stop closing.span.stop = closing.span.stop :=
    Nat.max_eq_right (by omega)
  rwa [Span.cover, starts, stops]

/-- A span over some tokens begins before one over the last of them. -/
theorem start_le (whole : front.Covers (first ++ last)) (part : behind.Covers last)
    (ordered : InOrder (first ++ last)) (some : first ≠ []) : front.start ≤ behind.start := by
  obtain ⟨opening, others, rfl⟩ := List.exists_cons_of_ne_nil some
  obtain ⟨_, _, head, _, rfl⟩ := whole
  obtain ⟨beginning, _, firstOfLast, _, rfl⟩ := part
  obtain rfl := Option.some.inj head
  have begins : beginning ∈ last := List.mem_of_mem_head? (by simp [firstOfLast])
  have before := ordered.stop_le (.head _) begins
  have forward := ordered.forward opening (.head _)
  exact Nat.le_trans forward before

end Span.Covers

namespace Rule

/-- What a rule reads from tokens that stand one behind the other has a span over all of them. -/
def Spanned (rule : Rule Expr) : Prop :=
  ∀ ⦃used : List Token⦄ ⦃value : Expr⦄ ⦃next : TokenKind⦄, rule used value next →
    InOrder used → value.span.Covers used

/-- Filters widen the span of a measure or a column up to the closing parenthesis. -/
theorem Filters.covers {expr : Rule Expr} {target value : Expr} {before used : List Token}
    {next : TokenKind} (covered : target.span.Covers before)
    (reading : Filters expr target used value next) : value.span.Covers (before ++ used) := by
  cases reading with
  | none =>
    rw [List.append_nil]
    exact covered
  | some filters =>
    cases filters with
    | @intro opening closing used values _ opens items closes =>
      have whole := covered.join (opening :: used) (.single closing)
      simpa using whole

theorem Operand.spanned {expr : Nat → Rule Expr} (spanned : ∀ level, Spanned (expr level)) :
    Spanned (Operand expr) := by
  intro used value next reading ordered
  cases reading with
  | @leaf token => exact .single token
  | @measure token name used value _ named filters =>
    have covered : (Expr.node (.measure name) token.span).span.Covers [token] := .single token
    exact filters.covers covered
  | @column table column tableName columnName used value _ tableNamed columnNamed filters =>
    have target : InOrder ([table] ++ ([] ++ [column])) := by
      have split : InOrder ([table, column] ++ used) := ordered
      exact split.left
    have covered : (Expr.node (.column tableName columnName)
        (table.span.cover column.span)).span.Covers [table, column] :=
      Span.Covers.cover (.single table) (.single column) target
    exact filters.covers covered
  | @call token name used values stop _ named arguments =>
    cases arguments with
    | @intro opening closing used values _ opens items closes =>
      exact (Span.Covers.single token).join (opening :: used) (.single closing)
  | @unary token operator used value _ sign operand =>
    have ordered : InOrder ([token] ++ ([] ++ used)) := ordered
    exact (Span.Covers.single token).cover (spanned _ operand ordered.tail) ordered
  | @bindings word result used later values body _ opens items separates reading =>
    have inner : InOrder later := ordered.tail.right.tail
    have whole := (Span.Covers.single word).join (used ++ [result]) (spanned 0 reading inner)
    simpa using whole
  | @group opening closing used value _ opens reading closes =>
    exact (Span.Covers.single opening).cover (.single closing) ordered
  | @tuple opening closing used first second others _ opens items closes =>
    exact (Span.Covers.single opening).cover (.single closing) ordered
  | @table opening closing used rows _ opens items closes =>
    exact (Span.Covers.single opening).cover (.single closing) ordered
  | @dataTable word outer opening closing last used later columns rows _ named opens heads some
      opensRows items closesRows closes =>
    have ordered : InOrder ([word] ++ ((outer :: (used ++ opening :: (later ++ [closing]))) ++
      [last])) := by simpa using ordered
    have whole := (Span.Covers.single word).cover (.single last) ordered
    simpa using whole

/-- What is joined to an expression on the left is covered together with it. -/
theorem Climbing.covers {operand : Rule Expr} (spanned : Spanned operand) {level : Nat}
    {left whole : Expr} {before used : List Token} {next : TokenKind}
    (reading : Climbing operand level left used whole next) (covered : left.span.Covers before)
    (ordered : InOrder (before ++ used)) : whole.span.Covers (before ++ used) := by
  induction reading generalizing before with
  | done =>
    rw [List.append_nil]
    exact covered
  | @step level left first right whole sign operator used middle later next joins _ reading
      tighter others ihTighter ihOthers =>
    have operandOrdered : InOrder (used ++ middle) := by
      have inner := ordered.right.tail
      rw [← List.append_assoc] at inner
      exact inner.left
    have operandCovered := spanned reading operandOrdered.left
    have rightCovered := ihTighter operandCovered operandOrdered
    have ordered : InOrder ((before ++ ([sign] ++ (used ++ middle))) ++ later) := by
      simpa using ordered
    have joinCovered := covered.cover rightCovered ordered.left
    have whole := ihOthers joinCovered ordered
    simpa using whole

theorem Expression.spanned {operand : Rule Expr} (spanned : Spanned operand) (level : Nat) :
    Spanned (Expression operand level) := by
  intro used whole next reading ordered
  cases reading with
  | intro reading others => exact others.covers spanned (spanned reading ordered.left) ordered

theorem operandRule_spanned (levels : Nat) : Spanned (operandRule levels) := by
  induction levels with
  | zero =>
    intro _ _ _ reading
    cases reading
  | succ levels ih => exact Operand.spanned fun level => Expression.spanned ih level

/-- **The span of an expression reaches from the start of its first token to the end of its
last.** -/
theorem ExpressionOfLevel.covers {level : Nat} {used : List Token} {value : Expr}
    {next : TokenKind} (reading : ExpressionOfLevel level used value next)
    (ordered : InOrder used) : value.span.Covers used :=
  Expression.spanned (operandRule_spanned maxNesting) level reading ordered

/-! ## The last token of an expression -/

/-- Whether an operand may end with a token. -/
def endsOperand : TokenKind → Bool
  | .symbol .rightParen => true
  | .symbol .rightBrace => true
  | .bracketName _ => true
  | kind => kind.leaf?.isSome

/-- What a rule reads ends with a token that ends an operand. -/
def EndsWithOperand (rule : Rule Expr) : Prop :=
  ∀ ⦃used : List Token⦄ ⦃value : Expr⦄ ⦃next : TokenKind⦄, rule used value next →
    ∃ front last, used = front ++ [last] ∧ endsOperand last.kind = true

theorem endsOperand_of_leaf? {kind : TokenKind} {form : Form Expr}
    (stated : kind.leaf? = some form) : endsOperand kind = true := by
  cases kind with
  | symbol => cases stated
  | bracketName => rfl
  | _ => simp [endsOperand, stated]

theorem Arguments.ends {expr : Rule Expr} {used : List Token} {values : List Expr × Nat}
    {next : TokenKind} (reading : Arguments expr used values next) :
    ∃ front last, used = front ++ [last] ∧ endsOperand last.kind = true := by
  cases reading with
  | @intro opening closing used values _ opens items closes =>
    exact ⟨opening :: used, closing, rfl, by rw [closes]; rfl⟩

/-- A measure or a column ends with its name or with its filters. -/
theorem Filters.ends {expr : Rule Expr} {target value : Expr} (before : List Token)
    {used : List Token} {name : Token} {next : TokenKind} (named : endsOperand name.kind = true)
    (reading : Filters expr target used value next) :
    ∃ front last, before ++ name :: used = front ++ [last] ∧ endsOperand last.kind = true := by
  cases reading with
  | none => exact ⟨before, name, rfl, named⟩
  | some filters =>
    obtain ⟨front, last, rfl, ends⟩ := filters.ends
    exact ⟨before ++ name :: front, last, by simp, ends⟩

theorem Operand.endsWithOperand {expr : Nat → Rule Expr}
    (ends : ∀ level, EndsWithOperand (expr level)) : EndsWithOperand (Operand expr) := by
  intro used value next reading
  cases reading with
  | @leaf token form _ stated => exact ⟨[], token, rfl, endsOperand_of_leaf? stated⟩
  | @measure token name used value _ named filters =>
    have closes : endsOperand token.kind = true := by
      rw [named]
      rfl
    exact Filters.ends [] closes filters
  | @column table column tableName columnName used value _ tableNamed columnNamed filters =>
    have closes : endsOperand column.kind = true := by
      rw [columnNamed]
      rfl
    exact Filters.ends [table] closes filters
  | @call token name used values stop _ named arguments =>
    obtain ⟨front, last, rfl, ends⟩ := arguments.ends
    exact ⟨token :: front, last, rfl, ends⟩
  | @unary token operator used value _ sign operand =>
    obtain ⟨front, last, rfl, ends⟩ := ends _ operand
    exact ⟨token :: front, last, rfl, ends⟩
  | @bindings word result used later values body _ opens items separates reading =>
    obtain ⟨front, last, rfl, ends⟩ := ends 0 reading
    exact ⟨word :: (used ++ result :: front), last, by simp, ends⟩
  | @group opening closing used value _ opens reading closes =>
    exact ⟨opening :: used, closing, rfl, by rw [closes]; rfl⟩
  | @tuple opening closing used first second others _ opens items closes =>
    exact ⟨opening :: used, closing, rfl, by rw [closes]; rfl⟩
  | @table opening closing used rows _ opens items closes =>
    exact ⟨opening :: used, closing, rfl, by rw [closes]; rfl⟩
  | @dataTable word outer opening closing last used later columns rows _ named opens heads some
      opensRows items closesRows closes =>
    exact ⟨word :: outer :: (used ++ opening :: (later ++ [closing])), last, by simp, by
      rw [closes]; rfl⟩

theorem Climbing.ends {operand : Rule Expr} (ends : EndsWithOperand operand) {level : Nat}
    {left whole : Expr} {before used : List Token} {next : TokenKind}
    (reading : Climbing operand level left used whole next)
    (leftEnds : ∃ front last, before = front ++ [last] ∧ endsOperand last.kind = true) :
    ∃ front last, before ++ used = front ++ [last] ∧ endsOperand last.kind = true := by
  induction reading generalizing before with
  | done => simpa using leftEnds
  | @step level left first right whole sign operator used middle later next joins _ reading
      tighter others ihTighter ihOthers =>
    obtain ⟨front, last, same, rightEnds⟩ := ihTighter (ends reading)
    have joinEnds : ∃ front last, before ++ sign :: (used ++ middle) = front ++ [last] ∧
        endsOperand last.kind = true :=
      ⟨before ++ sign :: front, last, by simp [same], rightEnds⟩
    have whole := ihOthers joinEnds
    simpa using whole

theorem operandRule_endsWithOperand (levels : Nat) : EndsWithOperand (operandRule levels) := by
  induction levels with
  | zero =>
    intro _ _ _ reading
    cases reading
  | succ levels ih =>
    refine Operand.endsWithOperand fun level used value next reading => ?_
    cases reading with
    | intro reading others => exact others.ends ih (ih reading)

/-- **The last token of an expression ends an operand.** -/
theorem ExpressionOfLevel.endsWithOperand (level : Nat) :
    EndsWithOperand (ExpressionOfLevel level) := by
  intro used value next reading
  have ends := operandRule_endsWithOperand maxNesting
  cases reading with
  | intro reading others => exact others.ends ends (ends reading)

theorem ExpressionOfLevel.endsOperand {level : Nat} {used : List Token} {value : Expr}
    {next : TokenKind} (reading : ExpressionOfLevel level used value next) :
    ∀ token ∈ used.getLast?, Rule.endsOperand token.kind = true := by
  obtain ⟨front, last, rfl, ends⟩ := ExpressionOfLevel.endsWithOperand level reading
  intro token isLast
  rw [List.getLast?_concat] at isLast
  exact Option.some.inj isLast ▸ ends

end Rule

end DaxScript
