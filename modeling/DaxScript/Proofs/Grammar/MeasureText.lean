import DaxScript.Proofs.Grammar.StatementRelocation
import DaxScript.Proofs.Grammar.StatementRule
import DaxScript.Proofs.Grammar.WholeExpression

/-!
# The tokens of a measure

A measure is recorded with the text from its first keyword to the end of its expression.  The
tokens of that text are one or two keywords, a table, a name, an equals sign and the tokens of the
expression (`Rule.MeasureText`); a clause about formatting that may follow does not belong to it.

The measures of a statement have such tokens one behind the other (`Rule.MeasureTexts`,
`Rule.Statement.measureTexts`).  Those that are created by a statement of their own begin with two
keywords, and those of a block with one, but another keyword in front makes them a statement too
(`Rule.MeasureText.behind`, `Rule.MeasureText.statement`).
-/

set_option autoImplicit false

namespace DaxScript

open Production

/-- The keywords that every measure of a statement begins with. -/
def Statement.opening : Statement → List Keyword
  | define _ _ => [.measure]
  | _ => [.create, .measure]

/-- The measures of a statement, each with the keywords that it begins with. -/
def Statement.openedMeasures (statement : Statement) : List (List Keyword × MeasureClause) :=
  statement.measures.map fun clause => (statement.opening, clause)

namespace Rule

/-! ## Single measures -/

/-- The tokens of a measure that begins with the given keywords, up to the end of its expression. -/
inductive MeasureText (words : List Keyword) : List Token → DaxScript.MeasureClause → Prop where
  | intro {first table name equals : Token} {others used : List Token} {body : Expr}
      {property? : Option CalculationProperty}
      (opens : (first :: others).map (·.kind) = words.map TokenKind.keyword)
      (tableNamed : table.kind.namesTable = true) (measureNamed : name.kind.namesMeasure = true)
      (sign : equals.kind = .symbol .equal)
      (reading : ExpressionOfLevel 0 used body .endOfInput) :
      MeasureText words (first :: (others ++ table :: name :: equals :: used))
        ⟨first.span.start, table, name, body, property?⟩

namespace MeasureText

variable {words : List Keyword} {own : List Token} {clause : DaxScript.MeasureClause}

/-- **The span of a measure reaches from the first of its tokens to the last.** -/
theorem covers (text : MeasureText words own clause) (ordered : InOrder own) :
    clause.span.Covers own := by
  cases text with
  | @intro first table name equals others used body property? opens _ _ _ reading =>
    have inner : InOrder used := ordered.tail.right.tail.tail.tail
    have whole := (Span.Covers.single first).join (others ++ [table, name, equals])
      (reading.covers inner)
    rw [List.append_assoc] at whole
    exact whole

/-- The table and the name of a measure are among its tokens. -/
theorem names (text : MeasureText words own clause) :
    (clause.table ∈ own ∧ clause.table.kind.namesTable = true) ∧
      clause.name ∈ own ∧ clause.name.kind.namesMeasure = true := by
  cases text with
  | intro _ tableNamed measureNamed => simp [tableNamed, measureNamed]

/-- A measure begins with the first of its keywords. -/
theorem exists_first (text : MeasureText words own clause) :
    ∃ first others word, own = first :: others ∧ words.head? = some word ∧
      first.kind = .keyword word := by
  cases text with
  | intro opens =>
    cases words with
    | nil => cases opens
    | cons word words => exact ⟨_, _, word, rfl, rfl, (List.cons.inj opens).1⟩

/-- The last tokens of a measure are those of its expression. -/
theorem exists_body (text : MeasureText words own clause) :
    ∃ opening used, own = opening ++ used ∧ opening ≠ [] ∧
      ExpressionOfLevel 0 used clause.body .endOfInput := by
  cases text with
  | @intro first table name equals others used body property? _ _ _ _ reading =>
    exact ⟨first :: (others ++ [table, name, equals]), used, by simp, List.cons_ne_nil _ _, reading⟩

/-- The last token of a measure ends an operand. -/
theorem endsOperand (text : MeasureText words own clause) :
    ∀ token ∈ own.getLast?, Rule.endsOperand token.kind = true := by
  obtain ⟨opening, used, rfl, _, reading⟩ := text.exists_body
  obtain ⟨front, last, rfl, _⟩ := ExpressionOfLevel.endsWithOperand 0 reading
  have ends := reading.endsOperand
  rw [List.getLast?_concat] at ends
  rwa [← List.append_assoc, List.getLast?_concat]

/-- A measure with another keyword in front. -/
theorem behind (text : MeasureText words own clause) {token : Token} {word : Keyword}
    (isWord : token.kind = .keyword word) :
    MeasureText (word :: words) (token :: own) { clause with start := token.span.start } := by
  cases text with
  | @intro first table name equals others used body property? opens tableNamed measureNamed sign
      reading =>
    have opens : (token :: first :: others).map (·.kind) = (word :: words).map .keyword := by
      rw [List.map_cons, opens, isWord, List.map_cons]
    exact .intro opens tableNamed measureNamed sign reading

/-- **A measure that begins with both keywords is a statement.** -/
theorem statement (text : MeasureText [.create, .measure] own clause) :
    Statement own (.createMeasure { clause with property := none }) .endOfInput := by
  cases text with
  | @intro create table name equals others used body property? opens tableNamed measureNamed sign
      reading =>
    obtain ⟨creates, opens⟩ := List.cons.inj opens
    obtain ⟨word, rfl⟩ := List.length_eq_one_iff.mp (by simpa using congrArg List.length opens)
    have isWord : word.kind = .keyword .measure := (List.cons.inj opens).1
    have defined : MeasureClause create.span.start (table :: name :: equals :: (used ++ []))
        ⟨create.span.start, table, name, body, none⟩ .endOfInput :=
      .intro tableNamed measureNamed sign reading (.absent rfl)
    rw [List.append_nil] at defined
    exact .createMeasure creates isWord defined rfl

end MeasureText

/-! ## Relocated measures -/

section Relocated

variable {place : Relocation}

theorem ExpressionOfLevel.of_relocated {used : List Token} {body : Expr}
    (reading : ExpressionOfLevel 0 (used.map place.token) body .endOfInput) :
    ∃ inner, ExpressionOfLevel 0 used inner .endOfInput ∧ body = place.expr inner := by
  obtain ⟨inner, left, yields, same, noRest⟩ :=
    (Relocation.natural_expressionOfLevel 0 used).yields (yields_expression_iff.mpr reading)
  obtain rfl : left = [] := List.map_eq_nil_iff.mp noRest.symm
  exact ⟨inner, yields_expression_iff.mp yields, same⟩

theorem ExpressionOfLevel.relocated {used : List Token} {body : Expr}
    (reading : ExpressionOfLevel 0 used body .endOfInput) :
    ExpressionOfLevel 0 (used.map place.token) (place.expr body) .endOfInput := by
  have moves : place.Moves place.expr (Production.expression used)
      (Production.expression (used.map place.token)) := Relocation.natural_expressionOfLevel 0 used
  exact yields_expression_iff.mp (moves.carries (yields_expression_iff.mpr reading))

/-- The tokens of a measure are those of a measure wherever they stand. -/
theorem MeasureText.relocated {words : List Keyword} {own : List Token}
    {clause : DaxScript.MeasureClause} (text : MeasureText words own clause) :
    MeasureText words (own.map place.token) (place.clause clause) := by
  cases text with
  | @intro first table name equals others used body property? opens tableNamed measureNamed sign
      reading =>
    have opens : ((first :: others).map place.token).map (·.kind) = words.map .keyword := by
      rw [← opens, List.map_map]
      rfl
    simp only [List.map_cons, List.map_append]
    exact .intro opens tableNamed measureNamed sign reading.relocated

theorem MeasureText.of_relocated {words : List Keyword} {own : List Token}
    {clause : DaxScript.MeasureClause} (text : MeasureText words (own.map place.token) clause) :
    ∃ inner, MeasureText words own inner ∧ clause = place.clause inner := by
  generalize same : own.map place.token = moved at text
  cases text with
  | @intro first table name equals others used body property? opens tableNamed measureNamed sign
      reading =>
    obtain ⟨first, rest, rfl, rfl, afterFirst⟩ := List.map_eq_cons_iff.mp same
    obtain ⟨others, rest, rfl, rfl, afterOthers⟩ := List.map_eq_append_iff.mp afterFirst
    obtain ⟨table, rest, rfl, rfl, afterTable⟩ := List.map_eq_cons_iff.mp afterOthers
    obtain ⟨name, rest, rfl, rfl, afterName⟩ := List.map_eq_cons_iff.mp afterTable
    obtain ⟨equals, used, rfl, rfl, rfl⟩ := List.map_eq_cons_iff.mp afterName
    obtain ⟨inner, readingInner, rfl⟩ := reading.of_relocated
    refine ⟨⟨first.span.start, table, name, inner, property?⟩, ?_, rfl⟩
    have opens : (first :: others).map (·.kind) = words.map .keyword := by
      rw [← opens, List.map_cons, List.map_cons, List.map_map]
      rfl
    exact .intro opens tableNamed measureNamed sign readingInner

end Relocated

/-! ## The measures of a statement -/

/-- Measures, each with the keywords that it begins with, that stand one behind the other among
tokens. -/
inductive MeasureTexts : List Token → List (List Keyword × DaxScript.MeasureClause) → Prop where
  | nil {tokens : List Token} : MeasureTexts tokens []
  | cons {before own later : List Token} {words : List Keyword} {clause : DaxScript.MeasureClause}
      {others : List (List Keyword × DaxScript.MeasureClause)}
      (text : MeasureText words own clause) (texts : MeasureTexts later others) :
      MeasureTexts (before ++ (own ++ later)) ((words, clause) :: others)

namespace MeasureTexts

variable {tokens : List Token} {measures : List (List Keyword × DaxScript.MeasureClause)}

theorem single {words : List Keyword} {own : List Token} {clause : DaxScript.MeasureClause}
    (text : MeasureText words own clause) (before after : List Token) :
    MeasureTexts (before ++ (own ++ after)) [(words, clause)] :=
  .cons text .nil

/-- Further tokens in front make no difference. -/
theorem behind (texts : MeasureTexts tokens measures) (front : List Token) :
    MeasureTexts (front ++ tokens) measures := by
  cases texts with
  | nil => exact .nil
  | cons text texts =>
    rw [← List.append_assoc]
    exact .cons text texts

/-- Measures in one part of the tokens come before those in the part behind. -/
theorem append (texts : MeasureTexts tokens measures) {later : List Token}
    {others : List (List Keyword × DaxScript.MeasureClause)} (behind : MeasureTexts later others) :
    MeasureTexts (tokens ++ later) (measures ++ others) := by
  induction texts with
  | nil => exact behind.behind _
  | cons text _ ih =>
    rw [List.append_assoc, List.append_assoc, List.cons_append]
    exact .cons text ih

/-- Each of the measures stands among the tokens. -/
theorem exists_of_mem (texts : MeasureTexts tokens measures) {words : List Keyword}
    {clause : DaxScript.MeasureClause} (member : (words, clause) ∈ measures) :
    ∃ before own after, tokens = before ++ (own ++ after) ∧ MeasureText words own clause := by
  induction texts with
  | nil => cases member
  | @cons before own later words' clause' others text _ ih =>
    rcases List.mem_cons.mp member with same | isLater
    · cases same
      exact ⟨before, own, later, rfl, text⟩
    · obtain ⟨front, own', after, rfl, text'⟩ := ih isLater
      exact ⟨before ++ (own ++ front), own', after, by simp, text'⟩

/-- The span of a measure begins with one of the tokens and ends with one. -/
theorem exists_ends (texts : MeasureTexts tokens measures) (ordered : InOrder tokens)
    {words : List Keyword} {clause : DaxScript.MeasureClause}
    (member : (words, clause) ∈ measures) :
    ∃ first ∈ tokens, ∃ last ∈ tokens,
      clause.span = ⟨first.span.start, last.span.stop⟩ := by
  obtain ⟨before, own, after, rfl, text⟩ := texts.exists_of_mem member
  obtain ⟨first, last, head, isLast, covered⟩ := text.covers ordered.right.left
  have opens : first ∈ own := List.mem_of_mem_head? head
  have closes : last ∈ own := List.mem_of_getLast? isLast
  exact ⟨first, by simp [opens], last, by simp [closes], covered⟩

/-- **Each of the measures ends before the next one begins.** -/
theorem pairwise (texts : MeasureTexts tokens measures) (ordered : InOrder tokens) :
    measures.Pairwise fun first second => first.2.span.stop ≤ second.2.span.start := by
  induction texts with
  | nil => exact .nil
  | cons text texts ih =>
    refine List.pairwise_cons.mpr ⟨fun other member => ?_, ih ordered.right.right⟩
    obtain ⟨_, last, _, isLast, covered⟩ := text.covers ordered.right.left
    obtain ⟨first, isFirst, _, _, coveredOther⟩ := texts.exists_ends ordered.right.right member
    rw [covered, coveredOther]
    exact ordered.right.stop_le (List.mem_of_getLast? isLast) isFirst

end MeasureTexts

/-- The tokens of a clause up to the end of its expression, behind the keywords of a measure. -/
theorem MeasureClause.measureText {words : List Keyword} {first : Token} {others : List Token}
    (opens : (first :: others).map (·.kind) = words.map TokenKind.keyword) {used : List Token}
    {clause : DaxScript.MeasureClause} {next : TokenKind}
    (reading : MeasureClause first.span.start used clause next) :
    ∃ own after, first :: (others ++ used) = own ++ after ∧ MeasureText words own clause := by
  cases reading with
  | @intro table name equals used later body _ _ tableNamed measureNamed sign reading =>
    refine ⟨first :: (others ++ table :: name :: equals :: used), later, by simp, ?_⟩
    exact .intro opens tableNamed measureNamed sign (expressionOfLevel_cuttable 0 reading rfl)

theorem measureTexts_definitions {used : List Token} {definitions : List DaxScript.Definition}
    {next : TokenKind} (reading : Repeated startsDefinition Definition used definitions next) :
    MeasureTexts used ((definitions.filterMap DaxScript.Definition.measure?).map
      fun clause => ([.measure], clause)) := by
  induction reading with
  | done => exact .nil
  | @more used later definition definitions next _ reading others ih =>
    cases reading with
    | binding => exact ih.behind used
    | @measure word used clause _ opens reading =>
      have opened : [word].map (·.kind) = [Keyword.measure].map .keyword := by simp [opens]
      obtain ⟨own, after, same, text⟩ := reading.measureText opened
      have whole := (MeasureTexts.single text [] after).append ih
      rw [List.nil_append, ← same] at whole
      exact whole

/-- **The measures of a statement stand one behind the other among its tokens.** -/
theorem Statement.measureTexts {used : List Token} {statement : DaxScript.Statement}
    {next : TokenKind} (reading : Statement used statement next) :
    MeasureTexts used statement.openedMeasures := by
  cases reading with
  | @createMeasure create word used clause _ creates opens reading =>
    have opened : [create, word].map (·.kind) = [Keyword.create, .measure].map .keyword := by
      simp [creates, opens]
    obtain ⟨own, after, same, text⟩ := reading.measureText opened
    have whole := MeasureTexts.single text [] after
    rw [List.nil_append, ← same] at whole
    exact whole
  | @define word used later definitions query _ _ items =>
    have whole : MeasureTexts (([word] ++ used) ++ later) (_ ++ []) :=
      ((measureTexts_definitions items).behind [word]).append .nil
    rw [List.append_nil] at whole
    exact whole
  | evaluate => exact .nil
  | expression => exact .nil

end Rule

end DaxScript
