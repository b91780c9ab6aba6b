import DaxScript.Proofs.Script.CountedStatements
import DaxScript.Proofs.Script.Relocation
import DaxScript.Proofs.Script.SingleStatement

/-!
# Measures are read again from their own text

The expression of a recorded measure is a source for an expression, and its full text is a script
with one measure: the same table, name and expression, and no format.  Only a measure of a block
needs the word `CREATE` in front.  The other way round, any expression becomes the expression of a
measure behind `CREATE MEASURE T[m] =` (`measures_roundTrip`).

Both directions meet at the tokens of a measure (`Rule.MeasureText`).  They are those of an excerpt
of the source, which has the same tokens by itself and behind any text that it fits behind, and
tokens of this form are a statement.
-/

set_option autoImplicit false

namespace DaxScript

open Production

/-! ## Texts behind another text -/

theorem Relocation.keepsTexts_startingAt (front chars : List Char) :
    (startingAt (Position.start.advanceAll front)).KeepsTexts chars (front ++ chars) := by
  intro span
  have moved := span.slice_behind front chars
  rw [Nat.add_comm span.start, Nat.add_comm span.stop] at moved
  simpa [Relocation.span, Span.moved, startingAt, Position.start] using moved

/-- The tokens of pieces behind other pieces are those of the pieces alone, moved. -/
theorem Piece.tokens_append_start (front behind : List Piece) :
    tokens .start (front ++ behind) = tokens .start front ++
      (tokens .start behind).map
        (Relocation.startingAt (Position.start.advanceAll (text front))).token := by
  have follows := Relocation.follows_startingAt (Position.start.advanceAll (text front))
  rw [tokens_append, follows.tokens, Relocation.startingAt_start]

/-- **The tokens of a measure that begins with both keywords are a script.** -/
theorem readMeasures_of_measureText {front : List Piece} {chars : List Char}
    {clause : MeasureClause} (together : Piece.FitTogether chars front)
    (soundFront : ∀ piece ∈ front, piece.fault? = none)
    (sound : ∀ piece ∈ Piece.all chars, piece.fault? = none)
    (text : Rule.MeasureText [.create, .measure] (Piece.tokens .start (front ++ Piece.all chars))
      clause) :
    readMeasures (String.ofList (Piece.text front ++ chars)) =
      .ok [.ofClause (Piece.text front ++ chars) { clause with property := none }] := by
  have pieces : Piece.all (String.ofList (Piece.text front ++ chars)).toList =
      front ++ Piece.all chars := by
    rw [String.toList_ofList]
    exact Piece.all_text_append together
  have whole := @readMeasures_of_statement (String.ofList (Piece.text front ++ chars))
    (.createMeasure { clause with property := none })
  rw [pieces, String.toList_ofList] at whole
  exact whole (List.forall_mem_append.mpr ⟨soundFront, sound⟩) text.statement

/-! ## Excerpts -/

/-- Pieces that make both keywords of a measure that begins with some keywords, in front of any
text. -/
structure Piece.LeadsIn (front : List Piece) (words : List Keyword) : Prop where
  together : ∀ chars, FitTogether chars front
  sound : ∀ piece ∈ front, piece.fault? = none
  opens : ∀ {own : List Token} {clause : MeasureClause}, Rule.MeasureText words own clause →
    ∃ start, Rule.MeasureText [.create, .measure] (tokens .start front ++ own)
      { clause with start := start }

/-- A measure that has both keywords needs none. -/
theorem Piece.LeadsIn.nothing : LeadsIn [] [.create, .measure] where
  together _ := trivial
  sound _ member := absurd member List.not_mem_nil
  opens {_ clause} text := ⟨clause.start, text⟩

/-- A measure of a block needs the first one. -/
theorem Piece.LeadsIn.create : LeadsIn [.ofKeyword .create, .space] [.measure] where
  together chars := ⟨fits_keyword (by simp [sameIgnoringCase]) (separated_cons (by decide) _),
    fits_blank (by decide) chars, trivial⟩
  sound := by decide
  opens text := ⟨_, text.behind rfl⟩

namespace Excerpt

variable {source : List Char} {own : List Token} (excerpt : Excerpt source own)

/-- Nothing is wrong with the part by itself. -/
theorem sound_text : ∀ piece ∈ Piece.all excerpt.text, piece.fault? = none := by
  rw [text, excerpt.alone]
  exact excerpt.sound

/-- **An excerpt that stands for an expression is one.** -/
theorem exists_readExpression {body : Expr}
    (reading : Rule.ExpressionOfLevel 0 own body .endOfInput) :
    ∃ expr, readExpression (String.ofList excerpt.text) = .ok expr := by
  rw [← excerpt.map_tokens] at reading
  obtain ⟨inner, readingInner, _⟩ := reading.of_relocated
  refine ⟨inner, readExpression_ok_iff.mpr ?_⟩
  rw [String.toList_ofList, expressionOfTokens_ok_iff, withoutEquals_of_expression readingInner]
  exact ⟨yields_expression_iff.mpr readingInner, excerpt.sound_text⟩

/-- **An excerpt that stands for a measure is read as the measure**, behind the keyword that it
lacks. -/
theorem exists_readMeasures {words : List Keyword} {clause : MeasureClause}
    (text : Rule.MeasureText words own clause) (covers : excerpt.span = clause.span)
    {front : List Piece} (leadsIn : Piece.LeadsIn front words) :
    ∃ again, readMeasures (String.ofList (Piece.text front ++ excerpt.text)) = .ok [again] ∧
      again.tableName = (Measure.ofClause source clause).tableName ∧
      again.name = (Measure.ofClause source clause).name ∧
      again.expression = (Measure.ofClause source clause).expression ∧ again.property = none := by
  -- Both measures are copies of the one in the part by itself.
  rw [← excerpt.map_tokens] at text
  obtain ⟨alone, textAlone, rfl⟩ := text.of_relocated
  let place := Relocation.startingAt (Position.start.advanceAll (Piece.text front))
  have moved : Rule.MeasureText words
      ((Piece.tokens .start (Piece.all excerpt.text)).map place.token) (place.clause alone) :=
    textAlone.relocated
  obtain ⟨start, copied⟩ := leadsIn.opens moved
  rw [← Piece.tokens_append_start] at copied
  have read := readMeasures_of_measureText (leadsIn.together _) leadsIn.sound excerpt.sound_text
    copied
  have inCopy := Relocation.ofClause_clause
    (Relocation.keepsTexts_startingAt (Piece.text front) excerpt.text) alone
  have inSource := Relocation.ofClause_clause
    (Relocation.keepsTexts_startingAt excerpt.front (excerpt.text ++ excerpt.behind)) alone
  have fits : alone.span.stop ≤ byteLength excerpt.text := by
    rw [Relocation.span_clause] at covers
    have stop : byteLength excerpt.front + byteLength excerpt.text =
        (Position.start.advanceAll excerpt.front).offset + alone.span.stop :=
      congrArg Span.stop covers
    simp only [Position.offset_advanceAll, Position.start] at stop
    omega
  have split : source = excerpt.front ++ (excerpt.text ++ excerpt.behind) := excerpt.split
  rw [← split, Measure.ofClause_append fits] at inSource
  have sameExpression := congrArg Measure.expression inCopy
  rw [inSource]
  exact ⟨_, read, rfl, rfl, sameExpression, rfl⟩

end Excerpt

/-! ## The measures of a script -/

/-- What a measure of a statement lacks to be a script. -/
def Statement.leadIn : Statement → String
  | define _ _ => "CREATE "
  | _ => ""

/-- What a measure of a statement lacks, if the statement is not refused. -/
def StatementReport.leadIn (report : StatementReport) : String :=
  report.statement?.elim "" Statement.leadIn

/-- A measure is found again in its own text. -/
structure Measure.RoundTrips (leadIn : String) (measure : Measure) : Prop where
  expression : ∃ expr, readExpression measure.expression = .ok expr
  /-- The text is a script with one measure, which is the same up to its format. -/
  statement : ∃ again, readMeasures (leadIn ++ measure.fullText) = .ok [again] ∧
    again.tableName = measure.tableName ∧ again.name = measure.name ∧
    again.expression = measure.expression ∧ again.property = none

theorem roundTrips_of_counted {source : String} {options : ScriptOptions} {words : List Keyword}
    {clause : MeasureClause}
    (member : (words, clause) ∈
      (StatementReport.counted source options).flatMap (·.openedMeasures))
    {front : List Piece} (leadsIn : Piece.LeadsIn front words) :
    (Measure.ofClause source.toList clause).RoundTrips (String.ofList (Piece.text front)) := by
  obtain ⟨own, used, whole, body, wholeSpan, bodySpan, _, text, reading⟩ :=
    exists_excerpts_of_counted member
  have fullText := fullText_ofClause whole wholeSpan
  have expression := expression_ofClause body bodySpan
  refine ⟨?_, ?_⟩
  · rw [expression]
    exact body.exists_readExpression reading
  · rw [fullText, ← String.ofList_append]
    exact whole.exists_readMeasures text wholeSpan leadsIn

/-- The measures of a statement that counts are found again. -/
theorem StatementReport.roundTrips {source : String} {options : ScriptOptions}
    {report : StatementReport} (counts : report ∈ counted source options) :
    ∀ measure ∈ report.measures source.toList, measure.RoundTrips report.leadIn := by
  intro measure member
  rw [report.measures_eq] at member
  obtain ⟨⟨words, clause⟩, isOpened, rfl⟩ := List.mem_map.mp member
  have isCounted : (words, clause) ∈ (counted source options).flatMap (·.openedMeasures) :=
    List.mem_flatMap.mpr ⟨report, counts, isOpened⟩
  obtain ⟨statement, isStatement, rfl⟩ := exists_statement isOpened
  rw [leadIn, isStatement]
  cases statement with
  | define => exact roundTrips_of_counted isCounted .create
  | _ => exact roundTrips_of_counted isCounted .nothing

/-! ## Expressions made measures -/

/-- What makes an expression a measure. -/
def measureLead : List Piece :=
  [.ofKeyword .create, .space, .ofKeyword .measure, .space, .ofWord ['T'],
    .enclosed .bracketName "m", .space, .ofSymbol .equal, .blank '\n']

theorem fitTogether_measureLead (chars : List Char) : Piece.FitTogether chars measureLead := by
  have fitsKeyword (word : Keyword) (rest : List Char) :
      (Piece.ofKeyword word).Fits (' ' :: rest) :=
    Piece.fits_keyword (by simp [sameIgnoringCase]) (Piece.separated_cons (by decide) _)
  refine ⟨fitsKeyword .create _, Piece.fits_blank (by decide) _, fitsKeyword .measure _,
    Piece.fits_blank (by decide) _, ?_, ?_, Piece.fits_blank (by decide) _, ?_,
    Piece.fits_blank (by decide) _, trivial⟩
  · exact Piece.fits_word (by decide) (by simp) (Piece.separated_cons (by decide) _)
  · exact Piece.fits_enclosed (.inr (by decide)) (Piece.separated_cons (by decide) _)
  · exact Piece.fits_symbol .equal (Piece.separated_cons (by decide) _)

/-- The tokens of an expression are those of a measure behind the tokens that make it one. -/
theorem measureText_measureLead {used : List Token} {body : Expr}
    (reading : Rule.ExpressionOfLevel 0 used body .endOfInput) :
    ∃ clause, clause.body = body ∧
      Rule.MeasureText [.create, .measure] (Piece.tokens .start measureLead ++ used) clause := by
  obtain ⟨create, word, table, name, equals, tokens, opens, tableNamed, measureNamed, sign⟩ :
      ∃ create word table name equals : Token,
        Piece.tokens .start measureLead = [create, word, table, name, equals] ∧
          [create, word].map (·.kind) = [Keyword.create, .measure].map .keyword ∧
          table.kind.namesTable = true ∧ name.kind.namesMeasure = true ∧
          equals.kind = .symbol .equal :=
    ⟨_, _, _, _, _, rfl, rfl, rfl, rfl, rfl⟩
  rw [tokens]
  exact ⟨⟨create.span.start, table, name, body, none⟩, rfl,
    .intro opens tableNamed measureNamed sign reading⟩

/-- **An expression behind the beginning of a measure is its expression.** -/
theorem exists_readMeasures_of_readExpression {text : String} {expr : Expr}
    (read : readExpression text = .ok expr)
    (noSign : nextKind (Input.ofSource text).tokens ≠ .symbol .equal) :
    ∃ measure covered, readMeasures ("CREATE MEASURE T[m] =\n" ++ text) = .ok [measure] ∧
      expr.span.slice? text.toList = some covered ∧
      measure.expression = String.ofList covered := by
  obtain ⟨accepted, sound⟩ := readExpression_ok_iff.mp read
  rw [Input.tokens_ofSource] at noSign
  rw [expressionOfTokens_ok_iff, withoutEquals_of_nextKind noSign, yields_expression_iff]
    at accepted
  have whole : Piece.tokens .start (Piece.all text.toList) =
      [] ++ (Piece.tokens .start (Piece.all text.toList) ++ []) := (List.append_nil _).symm
  obtain ⟨excerpt, sameSpan⟩ := exists_excerpt (List.append_nil _).symm sound whole
    (accepted.covers (Piece.inOrder_tokens _ _)) accepted.endsOperand
  let place := Relocation.startingAt (Position.start.advanceAll (Piece.text measureLead))
  have moved : Rule.ExpressionOfLevel 0
      ((Piece.tokens .start (Piece.all text.toList)).map place.token) (place.expr expr)
      .endOfInput := accepted.relocated
  obtain ⟨clause, sameBody, isMeasure⟩ := measureText_measureLead moved
  rw [← Piece.tokens_append_start] at isMeasure
  have measures := readMeasures_of_measureText (fitTogether_measureLead _) (by decide) sound
    isMeasure
  have written : "CREATE MEASURE T[m] =\n" ++ text =
      String.ofList (Piece.text measureLead ++ text.toList) := by
    rw [String.ofList_append, String.ofList_toList]
    rfl
  rw [written]
  refine ⟨_, excerpt.text, measures, by rw [← sameSpan]; exact excerpt.slice?_span, ?_⟩
  refine congrArg String.ofList ?_
  have texts := Relocation.keepsTexts_startingAt (Piece.text measureLead) text.toList expr.span
  change trim (clause.body.span.slice _) = _
  rw [sameBody, Relocation.span_expr, texts]
  exact excerpt.trim_slice sameSpan

/-- **Every measure of a script is found again in its own text**, and every expression is found
again in the text of a measure. -/
theorem measures_roundTrip (source : String) (options : ScriptOptions) :
    (readScript source options).measures =
        (StatementReport.counted source options).flatMap (·.measures source.toList) ∧
      (∀ report ∈ StatementReport.counted source options,
        ∀ measure ∈ report.measures source.toList, measure.RoundTrips report.leadIn) ∧
      ∀ {text : String} {expr : Expr}, readExpression text = .ok expr →
        nextKind (Input.ofSource text).tokens ≠ .symbol .equal →
          ∃ measure covered, readMeasures ("CREATE MEASURE T[m] =\n" ++ text) = .ok [measure] ∧
            expr.span.slice? text.toList = some covered ∧
            measure.expression = String.ofList covered :=
  ⟨measures_of_counted source options, fun _ counts => StatementReport.roundTrips counts,
    exists_readMeasures_of_readExpression⟩

/-- A measure of its own with a clause behind its expression, a measure of a block with a comment
in its expression, and an expression between comments. -/
theorem measures_roundTrip_block :
    let source := "CREATE MEASURE T[m] = [a] CALCULATION PROPERTY General
      DEFINE MEASURE T[n] = f( -- f\n[a]) EVALUATE T"
    let text := "-- é\n [b] -- c"
    let expr := Expr.node (.measure "b") ⟨7, 10⟩
    (readScript source {}).measures.map (fun measure => (measure.expression, measure.fullText)) =
        [("[a]", "CREATE MEASURE T[m] = [a]"),
          ("f( -- f\n[a])", "MEASURE T[n] = f( -- f\n[a])")] ∧
      (∀ report ∈ StatementReport.counted source {},
        ∀ measure ∈ report.measures source.toList, measure.RoundTrips report.leadIn) ∧
      readExpression text = .ok expr ∧
      nextKind (Input.ofSource text).tokens ≠ .symbol .equal ∧
      ∃ measure covered, readMeasures ("CREATE MEASURE T[m] =\n" ++ text) = .ok [measure] ∧
        expr.span.slice? text.toList = some covered ∧
        measure.expression = String.ofList covered := by
  intro source text expr
  have recorded : (readScript source {}).measures.map
      (fun measure => (measure.expression, measure.fullText)) =
        [("[a]", "CREATE MEASURE T[m] = [a]"),
          ("f( -- f\n[a])", "MEASURE T[n] = f( -- f\n[a])")] := by
    decide +kernel
  have read : readExpression text = .ok expr := by cbv
  have noSign : nextKind (Input.ofSource text).tokens ≠ .symbol .equal := by decide +kernel
  obtain ⟨_, found, measured⟩ := measures_roundTrip source {}
  exact ⟨recorded, found, read, noSign, measured read noSign⟩

end DaxScript
