import DaxScript.Proofs.Grammar.MeasureText

/-!
# Other tables for measures

Any token that names a table may be the table of a measure that a statement defines, and the rest of
the statement stays what it is (`Rule.Statement.exchange`).  The measures in front of that one stand
in front of its table, and its expression and the other measures behind it (`Rule.TableStands`).
-/

set_option autoImplicit false

namespace DaxScript

open Production

/-- The same definition of a measure, with another table. -/
def MeasureClause.withTable (table : Token) (clause : MeasureClause) : MeasureClause :=
  { clause with table }

namespace Rule

/-- The tokens on both sides of the table of a measure, among the measures of a statement that begin
with certain keywords. -/
structure TableStands (words : List Keyword) (before behind : List Token)
    (front : List DaxScript.MeasureClause) (clause : DaxScript.MeasureClause)
    (back : List DaxScript.MeasureClause) : Prop where
  inFront : MeasureTexts before (front.map (words, ·))
  opens : ∃ first ∈ before, clause.start = first.span.start
  body : ∃ middle used later, behind = middle ++ (used ++ later) ∧
    ExpressionOfLevel 0 used clause.body .endOfInput
  behind : MeasureTexts behind (back.map (words, ·))

namespace TableStands

variable {words : List Keyword} {before behind : List Token}
  {front back : List DaxScript.MeasureClause} {clause : DaxScript.MeasureClause}

theorem before_ne_nil (stands : TableStands words before behind front clause back) :
    before ≠ [] := by
  obtain ⟨first, member, _⟩ := stands.opens
  exact List.ne_nil_of_mem member

/-- Other measures may stand in front. -/
theorem behindOthers (stands : TableStands words before behind front clause back)
    {used : List Token} {others : List DaxScript.MeasureClause}
    (texts : MeasureTexts used (others.map (words, ·))) :
    TableStands words (used ++ before) behind (others ++ front) clause back where
  inFront := by
    rw [List.map_append]
    exact texts.append stands.inFront
  opens := by
    obtain ⟨first, member, same⟩ := stands.opens
    exact ⟨first, List.mem_append_right _ member, same⟩
  body := stands.body
  behind := stands.behind

/-- Other measures may stand behind. -/
theorem inFrontOfOthers (stands : TableStands words before behind front clause back)
    {later : List Token} {others : List DaxScript.MeasureClause}
    (texts : MeasureTexts later (others.map (words, ·))) :
    TableStands words before (behind ++ later) front clause (back ++ others) where
  inFront := stands.inFront
  opens := stands.opens
  body := by
    obtain ⟨middle, used, after, same, reading⟩ := stands.body
    exact ⟨middle, used, after ++ later, by rw [same]; simp, reading⟩
  behind := by
    rw [List.map_append]
    exact stands.behind.append texts

end TableStands

/-- A clause is read with any table. -/
theorem MeasureClause.exchange (words : List Keyword) {opening : List Token} {first : Token}
    (isFirst : first ∈ opening) {used : List Token} {clause : DaxScript.MeasureClause}
    {next : TokenKind} (reading : MeasureClause first.span.start used clause next) :
    ∃ behind, used = clause.table :: behind ∧ TableStands words opening behind [] clause [] ∧
      ∀ table : Token, table.kind.namesTable = true →
        MeasureClause first.span.start (table :: behind) (clause.withTable table) next := by
  cases reading with
  | @intro table name equals used later body _ _ tableNamed measureNamed sign reading formatted =>
    refine ⟨_, rfl, ⟨.nil, ⟨first, isFirst, rfl⟩, ?_, .nil⟩, fun table named =>
      .intro named measureNamed sign reading formatted⟩
    exact ⟨[name, equals], used, later, rfl, expressionOfLevel_cuttable 0 reading rfl⟩

/-- **Definitions are read with any table for one of their measures.** -/
theorem exchange_definitions {used : List Token} {definitions : List DaxScript.Definition}
    {next : TokenKind} (reading : Repeated startsDefinition Definition used definitions next)
    {clause : DaxScript.MeasureClause}
    (member : clause ∈ definitions.filterMap DaxScript.Definition.measure?) :
    ∃ before behind front back, used = before ++ clause.table :: behind ∧
      definitions.filterMap DaxScript.Definition.measure? = front ++ clause :: back ∧
      TableStands [.measure] before behind front clause back ∧
      ∀ table : Token, table.kind.namesTable = true → ∃ others,
        others.filterMap DaxScript.Definition.measure? = front ++ clause.withTable table :: back ∧
        Repeated startsDefinition Definition (before ++ table :: behind) others next := by
  induction reading with
  | done => cases member
  | @more used later definition definitions next goesOn reading others ih =>
    -- The exchange is in a later definition, which begins with the same token as before.
    have inLater (own : List DaxScript.MeasureClause)
        (texts : MeasureTexts used (own.map ([.measure], ·)))
        (same : ∀ others : List DaxScript.Definition,
          (definition :: others).filterMap DaxScript.Definition.measure? =
            own ++ others.filterMap DaxScript.Definition.measure?)
        (isLater : clause ∈ definitions.filterMap DaxScript.Definition.measure?) :
        ∃ before behind front back, used ++ later = before ++ clause.table :: behind ∧
          (definition :: definitions).filterMap DaxScript.Definition.measure? =
            front ++ clause :: back ∧
          TableStands [.measure] before behind front clause back ∧
          ∀ table : Token, table.kind.namesTable = true → ∃ others,
            others.filterMap DaxScript.Definition.measure? =
              front ++ clause.withTable table :: back ∧
            Repeated startsDefinition Definition (before ++ table :: behind) others next := by
      obtain ⟨before, behind, front, back, rfl, split, stands, exchange⟩ := ih isLater
      refine ⟨used ++ before, behind, own ++ front, back, by simp, by rw [same, split]; simp,
        stands.behindOthers texts, fun table named => ?_⟩
      obtain ⟨others', split', reading'⟩ := exchange table named
      obtain ⟨first, rest, rfl⟩ := List.exists_cons_of_ne_nil stands.before_ne_nil
      refine ⟨definition :: others', by rw [same, split']; simp, ?_⟩
      rw [List.append_assoc]
      exact .more goesOn reading reading'
    cases reading with
    | binding => exact inLater [] .nil (fun _ => rfl) member
    | @measure word used own _ opens reading =>
      have opened : [word].map (·.kind) = [Keyword.measure].map .keyword := by simp [opens]
      rcases List.mem_cons.mp member with rfl | isLater
      · obtain ⟨behind, rfl, stands, exchange⟩ :=
          reading.exchange [.measure] (List.mem_singleton_self word)
        have texts := measureTexts_definitions others
        refine ⟨[word], behind ++ later, [], _, by simp, rfl, stands.inFrontOfOthers texts,
          fun table named => ⟨.measure (clause.withTable table) :: definitions, rfl, ?_⟩⟩
        have whole : Repeated startsDefinition Definition ((word :: table :: behind) ++ later)
            (.measure (clause.withTable table) :: definitions) next :=
          .more goesOn (.measure opens (exchange table named)) others
        exact whole
      · obtain ⟨whole, after, same, text⟩ := reading.measureText opened
        refine inLater [own] ?_ (fun _ => rfl) isLater
        have texts := MeasureTexts.single text [] after
        rw [List.nil_append, ← same] at texts
        exact texts

/-- **A statement is read with any table for one of its measures.** -/
theorem Statement.exchange {used : List Token} {statement : DaxScript.Statement}
    {next : TokenKind} (reading : Statement used statement next)
    {clause : DaxScript.MeasureClause} (member : clause ∈ statement.measures) :
    ∃ before behind front back, used = before ++ clause.table :: behind ∧
      statement.measures = front ++ clause :: back ∧
      TableStands statement.opening before behind front clause back ∧
      ∀ table : Token, table.kind.namesTable = true → ∃ other,
        other.measures = front ++ clause.withTable table :: back ∧
        Statement (before ++ table :: behind) other next := by
  cases reading with
  | @createMeasure create word used own _ creates opens reading ends =>
    obtain rfl : clause = own := List.mem_singleton.mp member
    have isFirst : create ∈ [create, word] := .head _
    obtain ⟨behind, rfl, stands, exchange⟩ := reading.exchange [.create, .measure] isFirst
    exact ⟨[create, word], behind, [], [], rfl, rfl, stands, fun table named =>
      ⟨.createMeasure (clause.withTable table), rfl,
        .createMeasure creates opens (exchange table named) ends⟩⟩
  | @define word used later definitions query _ opens items some reading =>
    obtain ⟨before, behind, front, back, rfl, split, stands, exchange⟩ :=
      exchange_definitions items member
    have wider : TableStands [.measure] ([word] ++ before) behind ([] ++ front) clause back :=
      stands.behindOthers .nil
    have wider : TableStands [.measure] ([word] ++ before) (behind ++ later) front clause
        (back ++ []) := wider.inFrontOfOthers .nil
    rw [List.append_nil] at wider
    refine ⟨[word] ++ before, behind ++ later, front, back, by simp, split, wider,
      fun table named => ?_⟩
    obtain ⟨others, split', items'⟩ := exchange table named
    refine ⟨.define others query, split', ?_⟩
    have whole : Statement (word :: ((before ++ table :: behind) ++ later)) (.define others query)
        next := by
      refine .define opens items' ?_ reading
      rintro rfl
      exact absurd split' (by simp)
    simpa using whole
  | evaluate => cases member
  | expression => cases member

end Rule

end DaxScript
