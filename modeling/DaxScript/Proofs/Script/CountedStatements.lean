import DaxScript.Proofs.Grammar.Excerpt
import DaxScript.Proofs.Grammar.MeasureText
import DaxScript.Proofs.MeasuresBeforeErrors

/-!
# The text of the statements that count

The measures of a script are those of its first statements, as long as nothing is wrong.  By the
end of such a statement all that is wrong with the text until then would have been told, so the
text up to there has no faults, and the measures of these statements stand in it one behind the
other (`exists_front_of_counted`).  Each of them stands on an excerpt of the source
(`exists_excerpts_of_counted`).
-/

set_option autoImplicit false

namespace DaxScript

open Production

namespace Piece

/-- Where nothing is told about the first tokens nothing is wrong with the pieces up to them. -/
theorem exists_sound_front {position : Position} {pieces : List Piece} {before after : List Token}
    {told later : List (List Diagnostic)} (cut : tokens position pieces = before ++ after)
    (split : faults position pieces = told ++ later) (silent : told.flatten = [])
    (enough : before.length ≤ told.length) :
    ∃ front behind, pieces = front ++ behind ∧ (∀ piece ∈ front, piece.fault? = none) ∧
      tokens position front = before := by
  induction pieces generalizing position before told with
  | nil =>
    refine ⟨[], [], rfl, fun _ member => absurd member List.not_mem_nil, ?_⟩
    exact (List.append_eq_nil_iff.mp cut.symm).1.symm
  | cons piece pieces ih =>
    cases before with
    | nil => exact ⟨[], piece :: pieces, rfl, fun _ member => absurd member List.not_mem_nil, rfl⟩
    | cons first before =>
      obtain ⟨group, told, rfl⟩ : ∃ group others, told = group :: others :=
        List.exists_cons_of_length_pos (Nat.lt_of_lt_of_le (Nat.succ_pos _) enough)
      obtain ⟨rfl, silent⟩ := List.append_eq_nil_iff.mp silent
      rw [tokens] at cut
      rw [faults] at split
      rcases ownTokens_cases piece position with none | ⟨own, single⟩
      · rw [none, List.nil_append] at cut
        rw [none, if_pos List.isEmpty_nil] at split
        cases groups : faults (position.advanceAll piece.spelling) pieces with
        | nil => exact absurd groups (faults_ne_nil _ _)
        | cons inner groups' =>
          rw [groups] at split
          obtain ⟨nothing, others⟩ := List.cons.inj split
          obtain ⟨noFault, rfl⟩ := List.append_eq_nil_iff.mp nothing
          have again : faults (position.advanceAll piece.spelling) pieces =
              ([] :: told) ++ later := by rw [groups, others]; rfl
          obtain ⟨front, behind, rfl, sound, same⟩ := ih cut again silent enough
          refine ⟨piece :: front, behind, rfl, ?_, ?_⟩
          · exact List.forall_mem_cons.mpr ⟨diagnostics_eq_nil_iff.mp noFault, sound⟩
          · rw [tokens, none, same, List.nil_append]
      · rw [single] at cut
        rw [single, if_neg (by simp)] at split
        obtain ⟨rfl, others⟩ := List.cons.inj cut
        obtain ⟨noFault, groups⟩ := List.cons.inj split
        obtain ⟨front, behind, rfl, sound, same⟩ :=
          ih others groups silent (Nat.le_of_succ_le_succ enough)
        refine ⟨piece :: front, behind, rfl, ?_, ?_⟩
        · exact List.forall_mem_cons.mpr ⟨diagnostics_eq_nil_iff.mp noFault, sound⟩
        · rw [tokens, single, same]
          rfl

end Piece

namespace Turn

/-- The token behind what is passed over has been looked at. -/
theorem unseen_pass_le (depth : Nat) (tokens : List Token) :
    (pass depth tokens).1.unseen ≤ (pass depth tokens).2.length + 1 := by
  induction tokens generalizing depth with
  | nil => exact Nat.zero_le _
  | cons token rest ih =>
    unfold pass
    simp only
    split
    · split
      · exact Nat.le_refl _
      · exact ih _
    · split
      · simp
      · exact ih _
    all_goals exact ih _

namespace Course

variable {source : List Char} {finish : Position} {first : Token} {rest : List Token} {turn : Turn}

/-- A turn leaves no groups of diagnostics about tokens that are read in it. -/
theorem length_faults_le (course : Course source finish first rest turn)
    (faults : List (List Diagnostic)) :
    (events faults turn.moments).2.length ≤ turn.rest.length + 1 := by
  cases course with
  | semicolon => exact length_events_le (.head _)
  | passed =>
    exact (length_events_le (.tail _ (.tail _ (.head _)))).trans (unseen_pass_le 0 rest)
  | read => exact (length_events_le (.tail _ (.head _))).trans (Nat.le_succ _)
  | refused =>
    exact (length_events_le (.tail _ (.tail _ (.head _)))).trans (unseen_pass_le 0 _)

/-- The measures of a turn stand among the tokens that are read in it. -/
theorem exists_measureTexts (course : Course source finish first rest turn) :
    ∃ used, first :: rest = used ++ turn.rest ∧ (first.kind ≠ .symbol .semicolon →
      Rule.MeasureTexts used ((statementAt? first rest).elim [] Statement.openedMeasures)) := by
  have silent (none : first.kind ≠ .symbol .semicolon →
      (statementAt? first rest).elim [] Statement.openedMeasures = []) :
      ∃ used, first :: rest = used ++ turn.rest ∧ (first.kind ≠ .symbol .semicolon →
        Rule.MeasureTexts used ((statementAt? first rest).elim [] Statement.openedMeasures)) := by
    obtain ⟨used, same⟩ := course.rest_suffix
    refine ⟨used, same.symm, fun noSign => ?_⟩
    rw [none noSign]
    exact .nil
  cases course with
  | semicolon sign => exact silent fun noSign => absurd sign noSign
  | passed _ recognised =>
    refine silent fun _ => ?_
    rw [statementAt?, statement_of_recognised? recognised]
    simp [Except.toOption, Statement.openedMeasures, measures_of_recognised? recognised]
  | @read statement used left _ cut reading =>
    refine ⟨used, cut, fun _ => ?_⟩
    rw [statementAt?_of_yields (yields_statement_of_rule cut reading)]
    exact reading.measureTexts
  | refused _ refused =>
    refine silent fun _ => ?_
    rw [statementAt?, refused]
    rfl

end Course

end Turn

namespace StatementReport

/-- The measures of the statement, each with the keywords that it begins with. -/
def openedMeasures (report : StatementReport) : List (List Keyword × MeasureClause) :=
  report.statement?.elim [] Statement.openedMeasures

theorem measures_eq (report : StatementReport) (source : List Char) :
    report.measures source =
      report.openedMeasures.map fun opened => Measure.ofClause source opened.2 := by
  rw [measures_eq_measuresOf]
  obtain ⟨statement?, recorded⟩ := report
  cases statement? with
  | none => rfl
  | some statement => simp [measuresOf, openedMeasures, Statement.openedMeasures]

/-- A statement that defines measures has been read, and begins them with its keywords. -/
theorem exists_statement {report : StatementReport} {words : List Keyword} {clause : MeasureClause}
    (member : (words, clause) ∈ report.openedMeasures) :
    ∃ statement, report.statement? = some statement ∧ words = statement.opening := by
  obtain ⟨statement?, recorded⟩ := report
  cases statement? with
  | none => cases member
  | some statement =>
    obtain ⟨_, _, same⟩ := List.mem_map.mp member
    exact ⟨statement, rfl, (Prod.mk.inj same).1.symm⟩

/-- The statements that count: those by whose end nothing has been recorded as wrong. -/
def counted (source : String) (options : ScriptOptions) : List StatementReport :=
  (ofSource source options).takeWhile (·.recorded.isEmpty)

variable {source : List Char} {finish : Position} {recording : Recording}
  {faults : List (List Diagnostic)} {tokens : List Token}

/-- The text of the tokens that have been passed has no faults, as long as nothing was told. -/
theorem exists_front_of_passed {pieces : List Piece} {passed : List Token}
    {told : List (List Diagnostic)} (cut : Piece.tokens .start pieces = passed ++ tokens)
    (split : Piece.faults .start pieces = told ++ faults) (silent : told.flatten = [])
    (fewer : faults.length ≤ tokens.length + 1) :
    ∃ front behind used, pieces = front ++ behind ∧ (∀ piece ∈ front, piece.fault? = none) ∧
      Piece.tokens .start front = passed ++ used ∧ Rule.MeasureTexts used [] := by
  have enough : passed.length ≤ told.length := by
    have counted := Piece.length_faults .start pieces
    rw [cut, split, List.length_append, List.length_append] at counted
    omega
  obtain ⟨front, behind, same, sound, isPassed⟩ := Piece.exists_sound_front cut split silent enough
  exact ⟨front, behind, [], same, sound, by rw [isPassed, List.append_nil], .nil⟩

/-- **From any point between two turns on before which nothing was told, the statements that count
are read from a text without faults.** -/
theorem exists_front_of_all {pieces : List Piece} {passed : List Token}
    {told : List (List Diagnostic)} (between : Between finish recording faults tokens)
    (cut : Piece.tokens .start pieces = passed ++ tokens)
    (split : Piece.faults .start pieces = told ++ faults) (silent : told.flatten = [])
    (fewer : faults.length ≤ tokens.length + 1) :
    ∃ front behind used, pieces = front ++ behind ∧ (∀ piece ∈ front, piece.fault? = none) ∧
      Piece.tokens .start front = passed ++ used ∧
      Rule.MeasureTexts used (((all source finish recording faults tokens).takeWhile
        (·.recorded.isEmpty)).flatMap (·.openedMeasures)) := by
  induction tokens using Turn.byTurns source finish generalizing recording faults passed told with
  | nil =>
    rw [all, List.takeWhile_nil, List.flatMap_nil]
    exact exists_front_of_passed cut split silent fewer
  | turn first rest ih =>
    have stops := exists_front_of_passed cut split silent fewer
    cases room : recording.collector.overflowed with
    | true =>
      rw [all, if_pos room, List.takeWhile_nil, List.flatMap_nil]
      exact stops
    | false =>
      have course := Turn.course source finish first rest
      have after := between.afterTurn course
      rw [all_cons first rest room]
      simp only
      generalize Turn.ofTokens source finish first rest = turn at ih course after ⊢
      by_cases wrong : (recording.afterTurn faults turn).collector.items ≠ []
      · -- The statement of this turn does not count, and neither does any later one.
        by_cases sign : first.kind = .symbol .semicolon
        · rw [if_pos sign, takeWhile_eq_nil wrong, List.flatMap_nil]
          exact stops
        · rw [if_neg sign, List.takeWhile_cons_of_neg (by simp [wrong]), List.flatMap_nil]
          exact stops
      · -- Nothing is told in this turn, so nothing is wrong with the text of its tokens.
        have right := not_not.mp wrong
        have quiet : (Turn.events faults turn.moments).1.flatMap Event.diagnostics = [] := by
          rw [Recording.collector_afterTurn] at right
          exact between.tallied.eq_nil_of_pushAll
            (fun diagnostic told => (course.diagnostics_ahead between.layout told).1) right
        obtain ⟨toldNow, sameFaults, silentNow⟩ := Turn.exists_told faults turn.moments
        obtain ⟨usedNow, sameTokens, texts⟩ := course.exists_measureTexts
        have cutLater : Piece.tokens .start pieces = (passed ++ usedNow) ++ turn.rest := by
          rw [cut, sameTokens, List.append_assoc]
        have splitLater : Piece.faults .start pieces =
            (told ++ toldNow) ++ (Turn.events faults turn.moments).2 := by
          rw [split, List.append_assoc, ← sameFaults]
        have silentLater : (told ++ toldNow).flatten = [] := by
          rw [List.flatten_append, silent, silentNow quiet, List.append_nil]
        obtain ⟨front, behind, used, same, sound, isPassed, later⟩ :=
          ih after cutLater splitLater silentLater (course.length_faults_le faults)
        rw [List.append_assoc] at isPassed
        refine ⟨front, behind, usedNow ++ used, same, sound, isPassed, ?_⟩
        by_cases sign : first.kind = .symbol .semicolon
        · rw [if_pos sign]
          exact later.behind usedNow
        · rw [if_neg sign, List.takeWhile_cons_of_pos (by simp [right]), List.flatMap_cons]
          exact (texts sign).append later

end StatementReport

section Source

variable (source : String) (options : ScriptOptions)

/-- **The measures of the statements that count stand one behind the other in a text without
faults.** -/
theorem exists_front_of_counted :
    ∃ front behind, Piece.all source.toList = front ++ behind ∧
      (∀ piece ∈ front, piece.fault? = none) ∧
      Rule.MeasureTexts (Piece.tokens .start front)
        ((StatementReport.counted source options).flatMap (·.openedMeasures)) := by
  have cut : Piece.tokens .start (Piece.all source.toList) = [] ++ (Input.ofSource source).tokens :=
    (Input.tokens_ofSource source).symm
  have split : Piece.faults .start (Piece.all source.toList) =
      [] ++ (Input.ofSource source).faults :=
    (Input.faults_ofSource source).symm
  obtain ⟨front, behind, used, same, sound, isPassed, texts⟩ :=
    StatementReport.exists_front_of_all (Between.ofSource source options.maxErrors) cut split rfl
      (Input.length_faults source).le
  refine ⟨front, behind, same, sound, ?_⟩
  rw [isPassed]
  exact texts

/-- The measures of a script are those of the statements that count. -/
theorem measures_of_counted :
    (readScript source options).measures =
      (StatementReport.counted source options).flatMap (·.measures source.toList) := by
  have right : (Recording.withLimit options.maxErrors).collector.hasErrors = false :=
    Collector.hasErrors_withLimit _
  rw [readScript_eq_readOn, measures_readOn (Between.ofSource source options.maxErrors), right,
    if_neg Bool.false_ne_true]
  rfl

theorem measures_eq_counted :
    (readScript source options).measures =
      ((StatementReport.counted source options).flatMap (·.openedMeasures)).map
        fun opened => Measure.ofClause source.toList opened.2 := by
  rw [measures_of_counted, List.map_flatMap]
  refine congrArg (List.flatMap · _) (funext fun report => ?_)
  exact report.measures_eq source.toList

/-- The full text of a measure is the excerpt under its span. -/
theorem fullText_ofClause {source : List Char} {own : List Token} (whole : Excerpt source own)
    {clause : MeasureClause} (same : whole.span = clause.span) :
    (Measure.ofClause source clause).fullText = String.ofList whole.text :=
  congrArg String.ofList (whole.trim_slice same)

/-- The expression of a measure is the excerpt under the span of its body. -/
theorem expression_ofClause {source : List Char} {used : List Token} (body : Excerpt source used)
    {clause : MeasureClause} (same : body.span = clause.body.span) :
    (Measure.ofClause source clause).expression = String.ofList body.text :=
  congrArg String.ofList (body.trim_slice same)

/-- **Every measure of a statement that counts stands on an excerpt of the source**, and at its end
so does its expression. -/
theorem exists_excerpts_of_counted {source : String} {options : ScriptOptions}
    {words : List Keyword} {clause : MeasureClause}
    (member : (words, clause) ∈
      (StatementReport.counted source options).flatMap (·.openedMeasures)) :
    ∃ (own used : List Token) (whole : Excerpt source.toList own)
      (body : Excerpt source.toList used), whole.span = clause.span ∧
        body.span = clause.body.span ∧ body.text <:+ whole.text ∧
        Rule.MeasureText words own clause ∧
        Rule.ExpressionOfLevel 0 used clause.body .endOfInput := by
  obtain ⟨front, behind, cut, sound, texts⟩ := exists_front_of_counted source options
  obtain ⟨before, own, after, placed, text⟩ := texts.exists_of_mem member
  have ordered := Piece.inOrder_tokens .start front
  rw [placed] at ordered
  have covered := text.covers ordered.right.left
  obtain ⟨whole, wholeSpan⟩ := exists_excerpt cut sound placed covered text.endsOperand
  obtain ⟨opening, used, rfl, some, reading⟩ := text.exists_body
  have placedBody : Piece.tokens .start front = (before ++ opening) ++ (used ++ after) := by
    rw [placed]
    simp
  have coveredBody := reading.covers ordered.right.left.right
  obtain ⟨body, bodySpan⟩ := exists_excerpt cut sound placedBody coveredBody
    reading.endsOperand
  refine ⟨opening ++ used, used, whole, body, wholeSpan, bodySpan, ?_, text, reading⟩
  have starts := covered.start_le coveredBody ordered.right.left some
  rw [← wholeSpan, ← bodySpan] at starts
  exact whole.text_suffix body starts (by rw [wholeSpan, bodySpan]; rfl)

end Source

end DaxScript
