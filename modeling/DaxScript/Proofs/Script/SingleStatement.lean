import DaxScript.Proofs.Script.Joining

/-!
# Scripts of a single statement

A source that is read to its end as one statement, and with whose text nothing is wrong, is a
script with the measures of that statement (`readMeasures_of_statement`).
-/

set_option autoImplicit false

namespace DaxScript

open Production

/-- No statement that is read to its end begins with a semicolon. -/
theorem Rule.Statement.exists_first {used : List Token} {statement : DaxScript.Statement}
    {next : TokenKind} (reading : Statement used statement next) :
    ∃ first rest, used = first :: rest ∧ first.kind ≠ .symbol .semicolon := by
  cases reading with
  | createMeasure creates => exact ⟨_, _, rfl, by simp [creates]⟩
  | define opens => exact ⟨_, _, rfl, by simp [opens]⟩
  | evaluate reading =>
    cases reading with
    | intro opens => exact ⟨_, _, rfl, by simp [opens]⟩
  | expression sign => exact ⟨_, _, rfl, by simp [sign]⟩

/-- Where nothing is wrong with the text only the events themselves are told, now and later. -/
theorem Turn.events_of_silent {faults : List (List Diagnostic)} {moments : List Moment}
    (silent : faults.flatten = []) :
    ((events faults moments).1.flatMap Event.diagnostics =
        moments.flatMap fun moment => moment.events.flatMap Event.diagnostics) ∧
      (events faults moments).2.flatten = [] := by
  induction moments generalizing faults with
  | nil => exact ⟨rfl, silent⟩
  | cons moment moments ih =>
    have parts : (faults.take (faults.length - moment.unseen)).flatten ++
        (faults.drop (faults.length - moment.unseen)).flatten = [] := by
      rw [← List.flatten_append, List.take_append_drop, silent]
    obtain ⟨now, later⟩ := List.append_eq_nil_iff.mp parts
    obtain ⟨same, rest⟩ := ih later
    refine ⟨?_, rest⟩
    simp only [events, List.flatMap_append, Event.diagnostics_diagnosed, now, same,
      List.flatMap_cons, List.nil_append]

/-- **A script that is read in a single turn.**  Where nothing is wrong with the text and nothing is
told in the turn, the script has the measures of the turn. -/
theorem readScript_of_turn {source : String} (options : ScriptOptions)
    (silent : (Input.ofSource source).faults.flatten = []) {first : Token} {rest : List Token}
    (tokens : (Input.ofSource source).tokens = first :: rest) {turn : Turn}
    (isTurn : Turn.ofTokens source.toList (Input.ofSource source).finish first rest = turn)
    (last : turn.rest = [])
    (quiet : (turn.moments.flatMap fun moment => moment.events.flatMap Event.diagnostics) = []) :
    (readScript source options).collector = .withLimit options.maxErrors ∧
      (readScript source options).measures =
        turn.moments.flatMap fun moment => moment.events.flatMap Event.measures := by
  let start := Recording.withLimit options.maxErrors
  obtain ⟨told, left⟩ := @Turn.events_of_silent _ turn.moments silent
  obtain ⟨sameCollector, measures⟩ := start.afterTurn_of_quiet (told.trans quiet) rfl
  -- Behind the turn nothing is left to read or to tell.
  have whole : readScript source options =
      start.afterTurn (Input.ofSource source).faults turn := by
    rw [readScript_eq_readOn, tokens, Recording.readOn_cons _ _ _ _ _ _ rfl]
    simp only [isTurn, last]
    refine (Recording.readOn_nil _ _ _ _ (by rw [sameCollector]; rfl)).trans ?_
    rw [left]
    rfl
  rw [whole]
  exact ⟨sameCollector, measures.trans (List.nil_append _)⟩

/-- **A script that is one statement has the measures of that statement.** -/
theorem readMeasures_of_statement {source : String} {statement : Statement}
    (sound : ∀ piece ∈ Piece.all source.toList, piece.fault? = none)
    (reading : Rule.Statement (Piece.tokens .start (Piece.all source.toList)) statement
      .endOfInput) :
    readMeasures source = .ok (statement.measures.map (.ofClause source.toList)) := by
  obtain ⟨first, rest, tokens, noSign⟩ := reading.exists_first
  rw [tokens] at reading
  rw [← Input.tokens_ofSource] at tokens
  have silent : (Input.ofSource source).faults.flatten = [] := by
    rw [Input.faults_ofSource, Piece.flatten_faults_eq_nil_iff]
    exact sound
  let turn := Turn.lookingAt rest ⟨[Turn.definition source.toList statement []], []⟩
  have isTurn : Turn.ofTokens source.toList (Input.ofSource source).finish first rest = turn :=
    Turn.ofTokens_of_rule noSign (List.append_nil _).symm reading
  have quiet :
      (turn.moments.flatMap fun moment => moment.events.flatMap Event.diagnostics) = [] := by
    simp [turn, Turn.lookingAt, Turn.definition]
  have defined : (turn.moments.flatMap fun moment => moment.events.flatMap Event.measures) =
      statement.measures.map (.ofClause source.toList) := by
    simp [turn, Turn.lookingAt, Turn.definition]
  obtain ⟨collector, measures⟩ := readScript_of_turn {} silent tokens isTurn rfl quiet
  have right : (readScript source {}).hasErrors = false := by
    rw [Recording.hasErrors, collector]
    rfl
  rw [readMeasures, right, measures, defined]
  rfl

end DaxScript
