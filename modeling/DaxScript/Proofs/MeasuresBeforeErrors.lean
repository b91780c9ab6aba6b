import DaxScript.Proofs.Script.Between

/-!
# Measures come from before the first error

A measure is recorded when its whole statement has been read and nothing has been wrong until
then.  So the measures of a script are those of the first statements, up to the one by whose end
something has been recorded as wrong, and no others (`readScript_measures`).  It makes no
difference what is wrong: a character inside the statement or behind it, a clause of the same
block, or a statement before.
-/

set_option autoImplicit false

namespace DaxScript

/-- The measure that a definition of a block defines, and nothing for a variable. -/
def Definition.measures (source : List Char) : Definition → List Measure
  | measure clause => [.ofClause source clause]
  | binding _ _ => []

/-- A statement of a script, as the reader of the script sees it. -/
structure StatementReport where
  /-- The statement, unless it was refused. -/
  statement? : Option Statement
  /-- The diagnostics that had been recorded by the end of the statement. -/
  recorded : List Diagnostic

namespace StatementReport

/-- The measures that the statement of a source defines: `CREATE MEASURE` defines one, a block all
those among its definitions in their order, and no other statement defines any. -/
def measures (source : List Char) (report : StatementReport) : List Measure :=
  match report.statement? with
  | some (.createMeasure clause) => [.ofClause source clause]
  | some (.define definitions _) => definitions.flatMap (Definition.measures source)
  | _ => []

/-- These are the measures that are recorded for a statement. -/
theorem measures_eq_measuresOf (source : List Char) (report : StatementReport) :
    report.measures source = measuresOf source report.statement? := by
  obtain ⟨statement?, recorded⟩ := report
  cases statement? with
  | none => rfl
  | some statement =>
    cases statement with
    | define definitions query =>
      change definitions.flatMap _ = (definitions.filterMap _).map _
      induction definitions with
      | nil => rfl
      | cons definition definitions ih =>
        rw [List.flatMap_cons, ih]
        cases definition <;> rfl
    | _ => rfl

/-- The statements that are read when the tokens and the groups of diagnostics are left.  Reading
goes on turn by turn until a diagnostic has been dropped. -/
def all (source : List Char) (finish : Position) (recording : Recording)
    (faults : List (List Diagnostic)) (tokens : List Token) : List StatementReport :=
  match tokens with
  | [] => []
  | first :: rest =>
    if recording.collector.overflowed then []
    else
      let turn := Turn.ofTokens source finish first rest
      let after := recording.afterTurn faults turn
      let later := all source finish after (Turn.events faults turn.moments).2 turn.rest
      if first.kind = .symbol .semicolon then later
      else ⟨statementAt? first rest, after.collector.items⟩ :: later
termination_by tokens.length
decreasing_by exact Turn.length_ofTokens_lt source finish first rest

/-- The statements of a source. -/
def ofSource (source : String) (options : ScriptOptions) : List StatementReport :=
  let input := Input.ofSource source
  all source.toList input.finish (.withLimit options.maxErrors) input.faults input.tokens

/-! ## What has been recorded by the end of a statement -/

variable {source : List Char} {finish : Position} {recording : Recording}
  {faults : List (List Diagnostic)} {tokens : List Token}

theorem all_cons (first : Token) (rest : List Token)
    (room : recording.collector.overflowed = false) :
    all source finish recording faults (first :: rest) =
      let turn := Turn.ofTokens source finish first rest
      let after := recording.afterTurn faults turn
      let later := all source finish after (Turn.events faults turn.moments).2 turn.rest
      if first.kind = .symbol .semicolon then later
      else ⟨statementAt? first rest, after.collector.items⟩ :: later := by
  rw [all, room]
  simp only [Bool.false_eq_true, if_false]

/-- Once something has been recorded as wrong it is so for every later statement. -/
theorem recorded_ne_nil (wrong : recording.collector.items ≠ []) :
    ∀ report ∈ all source finish recording faults tokens, report.recorded ≠ [] := by
  induction tokens using Turn.byTurns source finish generalizing recording faults with
  | nil => simp [all]
  | turn first rest ih =>
    cases room : recording.collector.overflowed with
    | true => simp [all, room]
    | false =>
      have stillWrong : (recording.afterTurn faults
          (Turn.ofTokens source finish first rest)).collector.items ≠ [] := by
        rw [Recording.collector_afterTurn]
        intro nothing
        have kept := Collector.items_prefix_pushAll recording.collector
          ((Turn.events faults (Turn.ofTokens source finish first rest).moments).1.flatMap
            Event.diagnostics)
        rw [nothing] at kept
        exact wrong (List.prefix_nil.mp kept)
      rw [all_cons first rest room]
      simp only
      split
      · exact ih stillWrong
      · exact List.forall_mem_cons.mpr ⟨stillWrong, ih stillWrong⟩

/-- So no statement from there on is counted. -/
theorem takeWhile_eq_nil (wrong : recording.collector.items ≠ []) :
    (all source finish recording faults tokens).takeWhile (·.recorded.isEmpty) = [] := by
  have allWrong : ∀ report ∈ all source finish recording faults tokens, report.recorded ≠ [] :=
    recorded_ne_nil wrong
  generalize all source finish recording faults tokens = reports at allWrong ⊢
  cases reports with
  | nil => rfl
  | cons report reports =>
    have notEmpty : report.recorded.isEmpty = false := by simpa using allWrong report (.head _)
    exact List.takeWhile_cons_of_neg (by simp [notEmpty])

/-- Something is wrong by the end of every statement that is refused. -/
theorem recorded_of_refused (between : Between finish recording faults tokens) :
    ∀ report ∈ all source finish recording faults tokens, report.statement? = none →
      report.recorded ≠ [] := by
  induction tokens using Turn.byTurns source finish generalizing recording faults with
  | nil => simp [all]
  | turn first rest ih =>
    cases room : recording.collector.overflowed with
    | true => simp [all, room]
    | false =>
      have course := Turn.course source finish first rest
      have after := between.afterTurn course
      rw [all_cons first rest room]
      simp only
      split
      · exact ih after
      · next noSign =>
        refine List.forall_mem_cons.mpr ⟨fun refused => ?_, ih after⟩
        refine after.tallied.hasErrors_iff.mp ?_
        have some := course.diagnostics_ne_nil noSign refused faults
        obtain ⟨diagnostic, told⟩ := List.exists_mem_of_ne_nil _ some
        rw [Recording.collector_afterTurn, Collector.hasErrors_pushAll, Bool.or_eq_true,
          List.any_eq_true]
        exact .inr ⟨diagnostic, told, (course.diagnostics_ahead between.layout told).1⟩

end StatementReport

/-! ## Whole scripts -/

section ReadOn

variable {source : List Char} {finish : Position} {recording : Recording}
  {faults : List (List Diagnostic)} {tokens : List Token}

/-- The measures that are recorded from any point between two turns on. -/
theorem measures_readOn (between : Between finish recording faults tokens) :
    (recording.readOn source finish faults tokens).measures = recording.measures ++
      if recording.collector.hasErrors then []
      else ((StatementReport.all source finish recording faults tokens).takeWhile
        (·.recorded.isEmpty)).flatMap (·.measures source) := by
  induction tokens using Turn.byTurns source finish generalizing recording faults with
  | nil =>
    have noReports : StatementReport.all source finish recording faults [] = [] := by
      rw [StatementReport.all]
    rw [noReports, List.takeWhile_nil, List.flatMap_nil, ite_self, List.append_nil]
    exact recording.measures_readOn_nil source finish faults
  | turn first rest ih =>
    cases room : recording.collector.overflowed with
    | true =>
      have wrong : recording.collector.hasErrors = true := by simp [Collector.hasErrors, room]
      rw [recording.readOn_of_overflowed source finish faults _ room, if_pos wrong,
        List.append_nil]
    | false =>
      have course := Turn.course source finish first rest
      have after := between.afterTurn course
      rw [recording.readOn_cons source finish faults first rest room]
      simp only
      rw [ih after, course.measures_afterTurn, StatementReport.all_cons first rest room]
      simp only
      generalize sameAfter :
        recording.afterTurn faults (Turn.ofTokens source finish first rest) = recorded at after ⊢
      by_cases wrong : recorded.collector.hasErrors = true
      · -- Nothing is recorded in this turn or later, and no statement from here on is counted.
        have kept := after.tallied.hasErrors_iff.mp wrong
        rw [if_pos wrong, if_pos wrong, List.append_nil, List.append_nil]
        by_cases sign : first.kind = .symbol .semicolon
        · rw [if_pos sign, StatementReport.takeWhile_eq_nil kept, List.flatMap_nil, ite_self,
            List.append_nil]
        · rw [if_neg sign, List.takeWhile_cons_of_neg (by simp [kept]), List.flatMap_nil, ite_self,
            List.append_nil]
      · have right : recording.collector.hasErrors = false := by
          rw [← sameAfter, Recording.collector_afterTurn, Collector.hasErrors_pushAll] at wrong
          simp only [Bool.or_eq_true, not_or, Bool.not_eq_true] at wrong
          exact wrong.1
        have nothing : recorded.collector.items = [] := by
          simpa using mt after.tallied.hasErrors_iff.mpr wrong
        rw [if_neg wrong, if_neg wrong, right, Turn.Course.measures]
        simp only [Bool.false_eq_true, if_false, List.append_assoc]
        by_cases sign : first.kind = .symbol .semicolon
        · rw [if_pos sign, if_pos sign, List.nil_append]
        · rw [if_neg sign, if_neg sign, nothing, List.takeWhile_cons_of_pos rfl, List.flatMap_cons,
            StatementReport.measures_eq_measuresOf]

/-- All measures end before all that is wrong, from any point between two turns on. -/
theorem before_readOn (between : Between finish recording faults tokens) :
    ∀ measure ∈ (recording.readOn source finish faults tokens).measures,
      ∀ diagnostic ∈ (recording.readOn source finish faults tokens).collector.items,
        measure.span.stop ≤ diagnostic.position.offset := by
  induction tokens using Turn.byTurns source finish generalizing recording faults with
  | nil =>
    cases room : recording.collector.overflowed with
    | true =>
      rw [recording.readOn_of_overflowed source finish faults _ room]
      exact between.before
    | false =>
      rw [recording.readOn_nil source finish faults room]
      intro measure member diagnostic kept
      rw [recording.measures_foldl_add (Event.measures_diagnosed _)] at member
      rw [Recording.collector_foldl_add, Event.diagnostics_diagnosed] at kept
      rcases Collector.mem_items_pushAll kept with kept | told
      · exact between.before measure member diagnostic kept
      · exact (between.ahead measure member).faults diagnostic told
  | turn first rest ih =>
    cases room : recording.collector.overflowed with
    | true =>
      rw [recording.readOn_of_overflowed source finish faults _ room]
      exact between.before
    | false =>
      rw [recording.readOn_cons source finish faults first rest room]
      exact ih (between.afterTurn (Turn.course source finish first rest))

end ReadOn

/-- **The measures of a script are those of the statements before the first error**, which is
found in a statement, in front of it or right behind it.  A statement that is refused is no such
statement, and every measure ends before everything that is wrong. -/
theorem readScript_measures (source : String) (options : ScriptOptions) :
    (readScript source options).measures =
        ((StatementReport.ofSource source options).takeWhile (·.recorded.isEmpty)).flatMap
          (·.measures source.toList) ∧
      (∀ report ∈ StatementReport.ofSource source options, report.statement? = none →
        report.recorded ≠ []) ∧
      ∀ measure ∈ (readScript source options).measures,
        ∀ diagnostic ∈ (readScript source options).collector.items,
          measure.span.stop ≤ diagnostic.position.offset := by
  have between := Between.ofSource source options.maxErrors
  rw [readScript_eq_readOn]
  exact ⟨measures_readOn between, StatementReport.recorded_of_refused between,
    before_readOn between⟩

/-- A block gives all its measures.  The statement without an expression gives none, and neither
does the one behind it. -/
theorem readScript_measures_block :
    let source := "CREATE MEASURE t[a] = 1; DEFINE MEASURE t[b] = 2 VAR x = 3 MEASURE t[c] = x " ++
      "EVALUATE t; CREATE MEASURE t[d] =; CREATE MEASURE t[e] = 4"
    let counted := (StatementReport.ofSource source {}).takeWhile (·.recorded.isEmpty)
    (readScript source {}).measures = counted.flatMap (·.measures source.toList) ∧
      (readScript source {}).measures.map (fun measure => (measure.name, measure.expression)) =
        [("a", "1"), ("b", "2"), ("c", "x")] := by
  intro source counted
  have recorded : (readScript source {}).measures.map
      (fun measure => (measure.name, measure.expression)) =
        [("a", "1"), ("b", "2"), ("c", "x")] := by
    decide +kernel
  exact ⟨(readScript_measures source {}).1, recorded⟩

end DaxScript
