import DaxScript.Proofs.Grammar.StatementRule
import DaxScript.Proofs.Outline.TokenOutline

/-!
# Statements close what they open

Every rule of the grammar that reads an opening parenthesis or brace reads the closing one as well,
and no rule reads a semicolon.  So the tokens of a statement are properly nested
(`Rule.Statement.nests`), and behind them as many parentheses and as many braces are open as in
front of them (`Nested.parentheses`, `Nested.braces`).

The argument goes through the rules from the inside out, as the other comparisons of rules do: a
rule over nested items is nested.
-/

set_option autoImplicit false

namespace DaxScript

open Production TokenOutline

/-! ## Nested tokens -/

/-- Tokens without semicolons that close their parentheses and braces in the order in which they
open them. -/
inductive Nested : List Token → Prop where
  | nil : Nested []
  | plain {token : Token} (plain : isPlain token.kind = true) : Nested [token]
  | append {first second : List Token} (front : Nested first) (behind : Nested second) :
      Nested (first ++ second)
  | parenthesized {opening closing : Token} {inner : List Token}
      (opens : opening.kind = .symbol .leftParen) (nested : Nested inner)
      (closes : closing.kind = .symbol .rightParen) : Nested (opening :: (inner ++ [closing]))
  | braced {opening closing : Token} {inner : List Token}
      (opens : opening.kind = .symbol .leftBrace) (nested : Nested inner)
      (closes : closing.kind = .symbol .rightBrace) : Nested (opening :: (inner ++ [closing]))

namespace Nested

variable {token : Token} {tokens : List Token}

theorem cons (plain : isPlain token.kind = true) (nested : Nested tokens) :
    Nested (token :: tokens) :=
  .append (.plain plain) nested

theorem noSemicolon (nested : Nested tokens) :
    ∀ token ∈ tokens, token.kind ≠ .symbol .semicolon := by
  have enclosed {opening closing : Token} {inner : List Token}
      (opens : opening.kind ≠ .symbol .semicolon)
      (ih : ∀ token ∈ inner, token.kind ≠ .symbol .semicolon)
      (closes : closing.kind ≠ .symbol .semicolon) :
      ∀ token ∈ opening :: (inner ++ [closing]), token.kind ≠ .symbol .semicolon := by
    refine List.forall_mem_cons.mpr ⟨opens, fun token member => ?_⟩
    rcases List.mem_append.mp member with inside | last
    · exact ih token inside
    · exact List.mem_singleton.mp last ▸ closes
  induction nested with
  | nil => exact fun token member => absurd member List.not_mem_nil
  | plain plain => simpa using ne_semicolon_of_isPlain plain
  | append _ _ ihFront ihBehind =>
    intro token member
    exact (List.mem_append.mp member).elim (ihFront token) (ihBehind token)
  | parenthesized opens _ closes ih => exact enclosed (by simp [opens]) ih (by simp [closes])
  | braced opens _ closes ih => exact enclosed (by simp [opens]) ih (by simp [closes])

/-- A count that closing signs take back is the same behind nested tokens. -/
theorem foldl_eq {after : TokenKind → Nat → Nat}
    (plain : ∀ kind count, isPlain kind = true → after kind count = count)
    (parenthesized : ∀ count, after (.symbol .rightParen) (after (.symbol .leftParen) count) = count)
    (braced : ∀ count, after (.symbol .rightBrace) (after (.symbol .leftBrace) count) = count)
    (nested : Nested tokens) (count : Nat) :
    tokens.foldl (fun count token => after token.kind count) count = count := by
  induction nested generalizing count with
  | nil => rfl
  | plain isPlain => exact plain _ count isPlain
  | append _ _ ihFront ihBehind => rw [List.foldl_append, ihFront, ihBehind]
  | parenthesized opens _ closes ih =>
    rw [List.foldl_cons, List.foldl_append, ih, opens, List.foldl_cons, List.foldl_nil, closes]
    exact parenthesized count
  | braced opens _ closes ih =>
    rw [List.foldl_cons, List.foldl_append, ih, opens, List.foldl_cons, List.foldl_nil, closes]
    exact braced count

/-- Nested tokens leave as many parentheses open as there were. -/
theorem parentheses (nested : Nested tokens) (count : Nat) :
    tokens.foldl (fun count token => parenthesesAfter token.kind count) count = count :=
  nested.foldl_eq (fun _ count plain => (depthsAfter_of_isPlain plain count).1) (fun _ => rfl)
    (fun _ => rfl) count

/-- Nested tokens leave as many braces open as there were. -/
theorem braces (nested : Nested tokens) (count : Nat) :
    tokens.foldl (fun count token => bracesAfter token.kind count) count = count :=
  nested.foldl_eq (fun _ count plain => (depthsAfter_of_isPlain plain count).2) (fun _ => rfl)
    (fun _ => rfl) count

end Nested

/-! ## Single tokens -/

theorem isPlain_of_keyword {token : Token} {word : Keyword} (isWord : token.kind = .keyword word) :
    isPlain token.kind = true := by
  rw [isWord]
  rfl

/-- A token is plain if it can be something that none of the signs can be that matter to the
outline. -/
theorem isPlain_of_can (can : TokenKind → Prop)
    (noSign : ∀ sign ∈ [Symbol.leftParen, .rightParen, .leftBrace, .rightBrace, .semicolon],
      ¬can (.symbol sign))
    {kind : TokenKind} (holds : can kind) : isPlain kind = true := by
  cases kind with
  | symbol sign =>
    cases sign
    case leftParen | rightParen | leftBrace | rightBrace | semicolon =>
      exact absurd holds (noSign _ (by decide))
    all_goals rfl
  | _ => rfl

section Kinds

variable {kind : TokenKind}

theorem isPlain_of_leaf? {form : Form Expr} (stated : kind.leaf? = some form) :
    isPlain kind = true :=
  isPlain_of_can (·.leaf? = some form) (by simp [TokenKind.leaf?]) stated

theorem isPlain_of_functionName? {name : String} (named : kind.functionName? = some name) :
    isPlain kind = true :=
  isPlain_of_can (·.functionName? = some name) (by simp [TokenKind.functionName?]) named

theorem isPlain_of_unary {operator : UnaryOperator}
    (sign : UnaryOperator.ofKind? kind = some operator) : isPlain kind = true :=
  isPlain_of_can (UnaryOperator.ofKind? · = some operator) (by simp [UnaryOperator.ofKind?]) sign

theorem isPlain_of_binary {operator : BinaryOperator}
    (sign : BinaryOperator.ofKind? kind = some operator) : isPlain kind = true :=
  isPlain_of_can (BinaryOperator.ofKind? · = some operator) (by simp [BinaryOperator.ofKind?]) sign

theorem isPlain_of_namesTable (named : kind.namesTable = true) : isPlain kind = true :=
  isPlain_of_can (·.namesTable = true) (by simp [TokenKind.namesTable]) named

theorem isPlain_of_namesMeasure (named : kind.namesMeasure = true) : isPlain kind = true :=
  isPlain_of_can (·.namesMeasure = true) (by simp [TokenKind.namesMeasure]) named

theorem isPlain_of_withValue? {name : AttributeName} {assigned : Attribute}
    (typed : name.withValue? kind = some assigned) : isPlain kind = true :=
  isPlain_of_can (name.withValue? · = some assigned)
    (by cases name <;> simp [AttributeName.withValue?]) typed

theorem isPlain_of_direction {direction : Direction}
    (directs : Direction.ofKind? kind = some direction) : isPlain kind = true :=
  isPlain_of_can (Direction.ofKind? · = some direction) (by simp [Direction.ofKind?]) directs

end Kinds

theorem isPlain_of_tableName? {token : Token} {name : String}
    (named : token.tableName? = some name) : isPlain token.kind = true := by
  cases kind : token.kind with
  | symbol => simp [kind, Token.tableName?] at named
  | _ => rfl

namespace Rule

variable {α β : Type}

/-- Whatever a rule reads is nested. -/
def Nests (rule : Rule α) : Prop :=
  ∀ ⦃used : List Token⦄ ⦃value : α⦄ ⦃next : TokenKind⦄, rule used value next → Nested used

/-! ## Repetition -/

section Repetition

variable {item : Rule α} (inner : item.Nests)
include inner

theorem AfterComma.nests : (AfterComma item).Nests := by
  intro used value next reading
  cases reading with
  | intro sign reading => exact .cons (by rw [sign]; rfl) (inner reading)

theorem Repeated.nests {continues : TokenKind → Bool} : (Repeated continues item).Nests := by
  intro used values next reading
  induction reading with
  | done => exact .nil
  | more _ reading _ ih => exact (inner reading).append ih

theorem Separated.nests : (Separated item).Nests := by
  intro used values next reading
  cases reading with
  | intro reading others =>
    exact (inner reading).append (Repeated.nests (AfterComma.nests inner) others)

theorem SeparatedUnless.nests {close : Symbol} : (SeparatedUnless close item).Nests := by
  intro used values next reading
  cases reading with
  | none => exact .nil
  | some _ items => exact Separated.nests inner items

end Repetition

theorem Folded.nests {continues : TokenKind → Bool} {step : β → Rule β}
    (nests : ∀ state, (step state).Nests) (state : β) : (Folded continues step state).Nests := by
  intro used last next reading
  induction reading with
  | done => exact .nil
  | more _ reading _ ih => exact (nests _ reading).append ih

/-! ## Operands -/

section Parts

variable {expr : Rule Expr} (inner : expr.Nests)
include inner

theorem Arguments.nests : (Arguments expr).Nests := by
  intro used values next reading
  cases reading with
  | intro opens items closes =>
    exact .parenthesized opens (SeparatedUnless.nests inner items) closes

theorem Filters.nests (target : Expr) : (Filters expr target).Nests := by
  intro used value next reading
  cases reading with
  | none => exact .nil
  | some filters => exact Arguments.nests inner filters

theorem Binding.nests : (Binding expr).Nests := by
  intro used value next reading
  cases reading with
  | intro opens named sign reading =>
    exact .cons (isPlain_of_keyword opens) (.cons (by rw [named]; rfl)
      (.cons (by rw [sign]; rfl) (inner reading)))

theorem TableRow.nests (width? : Option Nat) : (TableRow expr width?).Nests := by
  intro used row next reading
  cases reading with
  | intro reading => exact inner reading

theorem TableRows.nests : (TableRows expr).Nests := by
  intro used rows next reading
  cases reading with
  | none => exact .nil
  | some _ first others =>
    exact (TableRow.nests inner _ first).append
      (Repeated.nests (AfterComma.nests (TableRow.nests inner _)) others)

theorem DataCell.nests : (DataCell expr).Nests := by
  intro used cell next reading
  cases reading with
  | absent => exact .nil
  | present _ reading => exact inner reading

theorem DataRow.nests (width : Nat) : (DataRow expr width).Nests := by
  intro used cells next reading
  cases reading with
  | intro opens items closes =>
    exact .braced opens (Separated.nests (DataCell.nests inner) items) closes

end Parts

theorem DataColumn.nests : DataColumn.Nests := by
  intro used column next reading
  cases reading with
  | intro named comma typed _ comma' =>
    exact .cons (by rw [named]; rfl) (.cons (by rw [comma]; rfl)
      (.cons (by rw [typed]; rfl) (.plain (by rw [comma']; rfl))))

theorem Operand.nests {expr : Nat → Rule Expr} (nests : ∀ level, (expr level).Nests) :
    (Operand expr).Nests := by
  intro used value next reading
  cases reading with
  | leaf stated => exact .plain (isPlain_of_leaf? stated)
  | measure named filters =>
    exact .cons (by rw [named]; rfl) (Filters.nests (nests 0) _ filters)
  | column tableNamed columnNamed filters =>
    exact .cons (isPlain_of_tableName? tableNamed)
      (.cons (by rw [columnNamed]; rfl) (Filters.nests (nests 0) _ filters))
  | call named arguments =>
    exact .cons (isPlain_of_functionName? named) (Arguments.nests (nests 0) arguments)
  | unary sign operand => exact .cons (isPlain_of_unary sign) (nests _ operand)
  | bindings opens items separates reading =>
    have bound := Repeated.nests (Binding.nests (nests 0)) items
    exact bound.append (.cons (isPlain_of_keyword separates) (nests 0 reading))
  | group opens reading closes => exact .parenthesized opens (nests 0 reading) closes
  | tuple opens items closes =>
    exact .parenthesized opens (Separated.nests (nests 0) items) closes
  | table opens items closes => exact .braced opens (TableRows.nests (nests 0) items) closes
  | @dataTable word outer opening closing last used later columns rows _ named opens heads _
      opensRows items closesRows closes =>
    have data : Nested (opening :: (later ++ [closing])) :=
      .braced opensRows (SeparatedUnless.nests (DataRow.nests (nests 0) _) items) closesRows
    have inner := (Repeated.nests DataColumn.nests heads).append data
    have whole := Nested.cons (isPlain_of_keyword named) (.parenthesized opens inner closes)
    simpa using whole

/-! ## Expressions -/

section Expressions

variable {operand : Rule Expr} (inner : operand.Nests)
include inner

theorem Climbing.nests (level : Nat) (left : Expr) : (Climbing operand level left).Nests := by
  intro used whole next reading
  induction reading with
  | done => exact .nil
  | step joins _ reading _ _ ihTighter ihOthers =>
    exact .cons (isPlain_of_binary joins) ((inner reading).append (ihTighter.append ihOthers))

theorem Expression.nests (level : Nat) : (Expression operand level).Nests := by
  intro used whole next reading
  cases reading with
  | intro reading others => exact (inner reading).append (Climbing.nests inner level _ others)

end Expressions

theorem operandRule_nests (levels : Nat) : (operandRule levels).Nests := by
  induction levels with
  | zero =>
    intro _ _ _ reading
    cases reading
  | succ levels ih => exact Operand.nests fun level => Expression.nests ih level

theorem expressionOfLevel_nests (level : Nat) : (ExpressionOfLevel level).Nests :=
  Expression.nests (operandRule_nests maxNesting) level

/-! ## Statements -/

theorem FormatAttribute.nests (property : CalculationProperty) :
    (FormatAttribute property).Nests := by
  intro used value next reading
  cases reading with
  | intro keyed sign _ typed =>
    exact .cons (by rw [keyed]; rfl) (.cons (by rw [sign]; rfl)
      (.plain (isPlain_of_withValue? typed)))

theorem Formatting.nests : Formatting.Nests := by
  intro used property next reading
  cases reading with
  | intro opens goesOn names _ attributes =>
    exact .cons (isPlain_of_keyword opens) (.cons (isPlain_of_keyword goesOn)
      (.cons (by rw [names]; rfl) (Folded.nests FormatAttribute.nests _ attributes)))

theorem MaybeFormatting.nests : MaybeFormatting.Nests := by
  intro used property? next reading
  cases reading with
  | absent => exact .nil
  | present reading => exact Formatting.nests reading

theorem MeasureClause.nests (start : Nat) : (MeasureClause start).Nests := by
  intro used clause next reading
  cases reading with
  | intro tableNamed measureNamed sign reading formatted =>
    exact .cons (isPlain_of_namesTable tableNamed) (.cons (isPlain_of_namesMeasure measureNamed)
      (.cons (by rw [sign]; rfl)
        ((expressionOfLevel_nests 0 reading).append (MaybeFormatting.nests formatted))))

theorem SortKey.nests : SortKey.Nests := by
  intro used key next reading
  cases reading with
  | plain reading => exact expressionOfLevel_nests 0 reading
  | directed reading directs =>
    exact (expressionOfLevel_nests 0 reading).append (.plain (isPlain_of_direction directs))

theorem Ordering.nests : Ordering.Nests := by
  intro used keys next reading
  cases reading with
  | absent => exact .nil
  | present opens goesOn items =>
    exact .cons (isPlain_of_keyword opens)
      (.cons (isPlain_of_keyword goesOn) (Separated.nests SortKey.nests items))

theorem Query.nests : Query.Nests := by
  intro used query next reading
  cases reading with
  | intro opens reading ordered =>
    exact .cons (isPlain_of_keyword opens)
      ((expressionOfLevel_nests 0 reading).append (Ordering.nests ordered))

theorem Definition.nests : Definition.Nests := by
  intro used definition next reading
  cases reading with
  | measure opens reading => exact .cons (isPlain_of_keyword opens) (MeasureClause.nests _ reading)
  | binding reading => exact Binding.nests (expressionOfLevel_nests 0) reading

/-- **The tokens of a statement are nested.** -/
theorem Statement.nests : Statement.Nests := by
  intro used statement next reading
  cases reading with
  | createMeasure creates opens reading =>
    exact .cons (isPlain_of_keyword creates)
      (.cons (isPlain_of_keyword opens) (MeasureClause.nests _ reading))
  | define opens items _ reading =>
    exact .cons (isPlain_of_keyword opens)
      ((Repeated.nests Definition.nests items).append (Query.nests reading))
  | evaluate reading => exact Query.nests reading
  | expression sign reading =>
    exact .cons (by rw [sign]; rfl) (expressionOfLevel_nests 0 reading)

end Rule

end DaxScript
