import DaxScript.Proofs.Grammar.OperandDescription

/-!
# What an operand asks of the expressions inside

An operand is read with whatever production for expressions it is given.  It hands this production
only what stands behind one of its own tokens, so two productions that agree on shorter lists of
tokens make the same operand of a list (`Production.operandOf_congr`).  No recursion into an
expression inside of an operand can therefore go on without reading.

Productions may agree up to refusals for an excused reason (`Production.Agree`).  Then an operand
that may open one level more is read in the same way, unless it is refused because of its nesting
(`Production.agree_operand`).
-/

set_option autoImplicit false

namespace DaxScript.Production

/-- Two readings are the same, or the first is a refusal for an excused reason. -/
inductive Agree (excused : Issue → Prop) {α : Type} {count : Nat} {tokens : List Token} :
    Reading α count tokens → Reading α count tokens → Prop where
  | same (reading : Reading α count tokens) : Agree excused reading reading
  | refused {refusal : Refusal} {other : Reading α count tokens}
      (reason : excused refusal.issue) : Agree excused (.error refusal) other

/-- Two productions agree on all lists of tokens up to a length. -/
def AgreeUpTo (excused : Issue → Prop) (limit : Nat) {α : Type} {count : Nat}
    (first second : Production α count) : Prop :=
  ∀ tokens, tokens.length ≤ limit → Agree excused (first tokens) (second tokens)

section Readings

variable {excused : Issue → Prop} {α β : Type} {count : Nat} {tokens : List Token}

/-- Readings one after the other. -/
theorem Agree.bind {between : Nat} {earlier : List Token} {first second : Reading β between earlier}
    {further others : Parsed β between earlier → Reading α count tokens}
    (agree : Agree excused first second)
    (later : ∀ parsed, Agree excused (further parsed) (others parsed)) :
    Agree excused (first >>= further) (second >>= others) := by
  cases agree with
  | refused reason => exact .refused reason
  | same =>
    cases first with
    | error => exact .same _
    | ok parsed => exact later parsed

theorem Agree.ite {condition : Prop} [Decidable condition]
    {holds otherwise holds' otherwise' : Reading α count tokens}
    (ifHolds : Agree excused holds holds') (ifNot : Agree excused otherwise otherwise') :
    Agree excused (if condition then holds else otherwise)
      (if condition then holds' else otherwise') := by
  split
  · exact ifHolds
  · exact ifNot

/-- What the second of two readings yields the first one yields, or it is refused. -/
theorem Agree.yields {first second : Reading α count tokens} (agree : Agree excused first second)
    {value : α} {rest : List Token} (reading : Yields second value rest) :
    Yields first value rest ∨ ∃ refusal, first = .error refusal ∧ excused refusal.issue := by
  cases agree with
  | same => exact .inl reading
  | refused reason => exact .inr ⟨_, rfl, reason⟩

/-- Where nothing is excused the readings are the same. -/
theorem Agree.eq {first second : Reading α count tokens}
    (agree : Agree (fun _ => False) first second) : first = second := by
  cases agree with
  | same => rfl
  | refused reason => exact reason.elim

end Readings

/-! ## Repetition -/

section Repetition

variable {excused : Issue → Prop} {limit : Nat} {α : Type} {count : Nat}

theorem agree_manyWhile {item other : Production α 1} (agree : AgreeUpTo excused limit item other)
    (continues : TokenKind → Bool) :
    AgreeUpTo excused limit (manyWhile continues item) (manyWhile continues other) := by
  intro tokens short
  induction counted : tokens.length using Nat.strongRecOn generalizing tokens with
  | ind length ih =>
    rw [manyWhile, manyWhile]
    refine .ite ?_ (.same _)
    refine .bind (agree tokens short) fun first => ?_
    have fits := first.fits
    exact .bind (ih _ (by omega) first.rest (by omega) rfl) fun _ => .same _

theorem agree_weaken {item other : Production α count}
    (agree : AgreeUpTo excused limit item other) :
    AgreeUpTo excused limit (weaken item) (weaken other) :=
  fun tokens short => .bind (agree tokens short) fun _ => .same _

theorem agree_afterComma {item other : Production α 0}
    (agree : AgreeUpTo excused limit item other) :
    AgreeUpTo excused limit (afterComma item) (afterComma other) := by
  intro tokens short
  refine .bind (.same _) fun comma => ?_
  have fits := comma.fits
  exact .bind (agree comma.rest (by omega)) fun _ => .same _

theorem agree_commaSeparated {item other : Production α 0}
    (agree : AgreeUpTo excused limit item other) :
    AgreeUpTo excused limit (commaSeparated item) (commaSeparated other) :=
  agree_manyWhile (agree_afterComma agree) _

theorem agree_separated {item other : Production α count}
    (agree : AgreeUpTo excused limit item other) :
    AgreeUpTo excused limit (separated item) (separated other) := by
  intro tokens short
  refine .bind (agree tokens short) fun first => ?_
  have fits := first.fits
  exact .bind (agree_commaSeparated (agree_weaken agree) first.rest (by omega)) fun _ => .same _

theorem agree_separatedUnless {item other : Production α count}
    (agree : AgreeUpTo excused limit item other) (close : Symbol) :
    AgreeUpTo excused limit (separatedUnless close item) (separatedUnless close other) :=
  fun tokens short => .ite (.same _) (agree_weaken (agree_separated agree) tokens short)

end Repetition

/-! ## Operands

The lists that an operand is read from may be longer by one token than those that its expressions
are. -/

section Operands

variable {excused : Issue → Prop} {limit : Nat} {first second : ExprProduction}
  (agree : ∀ level, AgreeUpTo excused limit (first level) (second level))
include agree

theorem agree_arguments : AgreeUpTo excused (limit + 1) (arguments first) (arguments second) := by
  intro tokens short
  refine .bind (.same _) fun opening => ?_
  have fits := opening.fits
  refine .bind (agree_separatedUnless (agree 0) _ opening.rest (by omega)) fun values => ?_
  exact .bind (.same _) fun _ => .same _

theorem agree_filtersOf (target : Expr) :
    AgreeUpTo excused (limit + 1) (filtersOf first target) (filtersOf second target) := by
  intro tokens short
  refine .ite ?_ (.same _)
  exact .bind (agree_arguments agree tokens short) fun _ => .same _

theorem agree_columnOf (table : String) (origin : Span) :
    AgreeUpTo excused (limit + 1) (columnOf first table origin) (columnOf second table origin) := by
  intro tokens short
  cases tokens with
  | nil => exact .same _
  | cons token rest =>
    obtain ⟨kind, span, position, spelling⟩ := token
    cases kind with
    | bracketName =>
      exact .bind (agree_filtersOf agree _ rest (Nat.le_of_succ_le short)) fun _ => .same _
    | _ => exact .same _

theorem agree_binding : AgreeUpTo excused (limit + 1) (binding first) (binding second) := by
  intro tokens short
  refine .bind (.same _) fun opening => ?_
  refine .bind (.same _) fun name => ?_
  refine .bind (.same _) fun equals => ?_
  have := opening.fits
  have := name.fits
  have := equals.fits
  exact .bind (agree 0 equals.rest (by omega)) fun _ => .same _

theorem agree_bindingsFrom (start : Nat) :
    AgreeUpTo excused (limit + 1) (bindingsFrom first start) (bindingsFrom second start) := by
  intro tokens short
  refine .bind (agree_manyWhile (agree_binding agree) _ tokens short) fun values => ?_
  refine .bind (.same _) fun result => ?_
  have := values.fits
  have := result.fits
  exact .bind (agree 0 result.rest (by omega)) fun _ => .same _

theorem agree_group : AgreeUpTo excused (limit + 1) (group first) (group second) := by
  intro tokens short
  refine .bind (.same _) fun opening => ?_
  have fits := opening.fits
  refine .bind (agree_separated (agree 0) opening.rest (by omega)) fun values => ?_
  exact .bind (.same _) fun _ => .same _

theorem agree_tableRow (width? : Option Nat) :
    AgreeUpTo excused limit (tableRow first width?) (tableRow second width?) := by
  intro tokens short
  exact .bind (agree 0 tokens short) fun _ => .same _

theorem agree_tableRows : AgreeUpTo excused limit (tableRows first) (tableRows second) := by
  intro tokens short
  refine .ite (.same _) ?_
  refine .bind (agree_tableRow agree none tokens short) fun row => ?_
  have fits := row.fits
  have further := agree_commaSeparated (agree_weaken (agree_tableRow agree (some row.value.length)))
  exact .bind (further row.rest (by omega)) fun _ => .same _

theorem agree_table : AgreeUpTo excused (limit + 1) (table first) (table second) := by
  intro tokens short
  refine .bind (.same _) fun opening => ?_
  have fits := opening.fits
  refine .bind (agree_tableRows agree opening.rest (by omega)) fun rows => ?_
  exact .bind (.same _) fun _ => .same _

theorem agree_dataCell : AgreeUpTo excused limit (dataCell first) (dataCell second) := by
  intro tokens short
  refine .ite (.same _) ?_
  exact .bind (agree 0 tokens short) fun _ => .same _

theorem agree_dataRow (width : Nat) :
    AgreeUpTo excused (limit + 1) (dataRow first width) (dataRow second width) := by
  intro tokens short
  refine .bind (.same _) fun opening => ?_
  have fits := opening.fits
  refine .bind (agree_separated (agree_dataCell agree) opening.rest (by omega)) fun cells => ?_
  exact .bind (.same _) fun _ => .same _

theorem agree_dataTable : AgreeUpTo excused (limit + 1) (dataTable first) (dataTable second) := by
  intro tokens short
  refine .bind (.same _) fun word => ?_
  refine .bind (.same _) fun outer => ?_
  refine .bind (.same _) fun columns => ?_
  refine .ite (.same (.error (expected columns.rest .columnName))) ?_
  refine .bind (.same _) fun opening => ?_
  have := word.fits
  have := outer.fits
  have := columns.fits
  have := opening.fits
  refine .bind (agree_separatedUnless (agree_dataRow agree _) _ opening.rest (by omega))
    fun rows => ?_
  refine .bind (.same _) fun closing => ?_
  exact .bind (.same _) fun _ => .same _

section Behind

variable {rest : List Token} (short : rest.length ≤ limit)
include short

theorem agree_named (name : String) (token : Token) :
    Agree excused (named first name token rest) (named second name token rest) :=
  .bind (agree_columnOf agree name token.span rest (Nat.le_succ_of_le short)) fun _ => .same _

theorem agree_called (name : String) (token : Token) :
    Agree excused (called first name token rest) (called second name token rest) :=
  .bind (agree_arguments agree rest (Nat.le_succ_of_le short)) fun _ => .same _

theorem agree_measured (name : String) (token : Token) :
    Agree excused (measured first name token rest) (measured second name token rest) :=
  .bind (agree_filtersOf agree _ rest (Nat.le_succ_of_le short)) fun _ => .same _

theorem agree_signed (operator : UnaryOperator) (token : Token) :
    Agree excused (signed first operator token rest) (signed second operator token rest) :=
  .bind (agree operator.operandLevel rest short) fun _ => .same _

theorem agree_keywordOperand (word : Keyword) (token : Token) :
    Agree excused (keywordOperand first word token rest)
      (keywordOperand second word token rest) := by
  have whole : (token :: rest).length ≤ limit + 1 := Nat.succ_le_succ short
  refine .ite (agree_named agree short token.spelling token) ?_
  cases word with
  | var => exact agree_bindingsFrom agree _ _ whole
  | logicalNot => exact agree_signed agree short _ token
  | dataTable => exact agree_dataTable agree _ whole
  | trueValue | falseValue | blank | logicalAnd | logicalOr =>
    exact .ite (agree_called agree short _ token) (.same _)
  | _ => exact .same _

end Behind

/-- **Operands agree when the expressions inside do**, and these are shorter by a token. -/
theorem agree_operandOf : AgreeUpTo excused (limit + 1) (operandOf first) (operandOf second) := by
  intro tokens whole
  cases tokens with
  | nil => exact .same _
  | cons token rest =>
    have short : rest.length ≤ limit := Nat.le_of_succ_le_succ whole
    obtain ⟨kind, span, position, spelling⟩ := token
    cases kind with
    | keyword word => exact agree_keywordOperand agree short word _
    | identifier name =>
      exact .ite (agree_called agree short name _) (agree_named agree short name _)
    | quotedName name => exact agree_named agree short name _
    | bracketName name => exact agree_measured agree short name _
    | symbol sign =>
      cases sign with
      | minus | plus => exact agree_signed agree short _ _
      | leftParen => exact agree_group agree _ whole
      | leftBrace => exact agree_table agree _ whole
      | _ => exact .same _
    | _ => exact .same _

end Operands

/-- **Every expression inside of an operand is read behind a token of the operand**: only what the
production for expressions makes of shorter lists matters. -/
theorem operandOf_congr {first second : ExprProduction} {tokens : List Token}
    (agree : ∀ level shorter, shorter.length < tokens.length →
      first level shorter = second level shorter) :
    operandOf first tokens = operandOf second tokens := by
  cases tokens with
  | nil => rfl
  | cons token rest =>
    have same (level : Nat) :
        AgreeUpTo (fun _ => False) rest.length (first level) (second level) := by
      intro shorter short
      rw [agree level shorter (Nat.lt_succ_of_le short)]
      exact .same _
    exact (agree_operandOf same (token :: rest) (Nat.le_refl _)).eq

/-! ## Expressions -/

section Climbing

variable {excused : Issue → Prop} {limit : Nat} {first second : Production Expr 1}
  (agree : AgreeUpTo excused limit first second)
include agree

theorem agree_climbFrom (level : Nat) (left : Expr) :
    AgreeUpTo excused limit (climbFrom first level left) (climbFrom second level left) := by
  intro tokens short
  induction counted : tokens.length using Nat.strongRecOn generalizing level left tokens with
  | ind length ih =>
    cases tokens with
    | nil =>
      rw [climbFrom, climbFrom]
      exact .same _
    | cons token rest =>
      rw [List.length_cons] at counted short
      rw [climbFrom, climbFrom]
      cases BinaryOperator.ofKind? token.kind with
      | none => exact .same _
      | some operator =>
        refine .ite (.same _) ?_
        refine .bind (agree rest (by omega)) fun operand => ?_
        have fits := operand.fits
        refine .bind (ih _ (by omega) _ operand.value operand.rest (by omega) rfl) fun right => ?_
        have fits' := right.fits
        exact .bind (ih _ (by omega) level _ right.rest (by omega) rfl) fun _ => .same _

theorem agree_climb (level : Nat) :
    AgreeUpTo excused limit (climb first level) (climb second level) := by
  intro tokens short
  refine .bind (agree tokens short) fun operand => ?_
  have fits := operand.fits
  exact .bind (agree_climbFrom agree level operand.value operand.rest (by omega)) fun _ => .same _

end Climbing

/-- **One level more makes no difference** unless there is none left for an operand. -/
theorem agree_operand (levels limit : Nat) :
    AgreeUpTo (· = .nestingTooDeep maxNesting) limit (operand levels) (operand (levels + 1)) := by
  induction levels generalizing limit with
  | zero => exact fun _ _ => .refused rfl
  | succ levels ih =>
    intro tokens short
    exact agree_operandOf (fun level => agree_climb (ih limit) level) tokens
      (Nat.le_succ_of_le short)

end DaxScript.Production
