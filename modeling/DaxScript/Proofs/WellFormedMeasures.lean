import DaxScript.Proofs.Script.CountedStatements

/-!
# Recorded measures are well formed

The span of a recorded measure covers its full text in the source, which begins with `CREATE` or
`MEASURE` and ends with the expression.  Expression and names are not empty, the expression has no
white space at either end, and the spans of the measures of a script follow each other
(`measures_wellFormed`).

A measure counts only in a text without faults, and there its tokens stand on an excerpt of the
source (`exists_excerpts_of_counted`).  The tokens of the names are written as what they say, so
their quotes and brackets are taken off in the right places.
-/

set_option autoImplicit false

namespace DaxScript

/-! ## The names of measures -/

/-- What is in quotes is found without them. -/
theorem unquoteTableName_enclosed (content : List Char) :
    Measure.unquoteTableName (Enclosure.quotedName.opener ::
      (Enclosure.quotedName.write content ++ [Enclosure.quotedName.closer])) = content := by
  have written : Enclosure.quotedName.write content = Quoted.double '\'' content := rfl
  simp [Measure.unquoteTableName, written, Enclosure.opener, Enclosure.closer,
    Quoted.undouble_double]

/-- No word begins with a quote. -/
theorem unquoteTableName_of_isWord {spelling : List Char}
    (spelled : Piece.isWord spelling = true) : Measure.unquoteTableName spelling = spelling := by
  unfold Measure.unquoteTableName
  split
  · cases spelled
  · rfl

/-- What is in brackets is found without them. -/
theorem stripBrackets_enclosed (content : List Char) :
    Measure.stripBrackets (Enclosure.bracketName.opener ::
      (Enclosure.bracketName.write content ++ [Enclosure.bracketName.closer])) = content := by
  have written : Enclosure.bracketName.write content = content := rfl
  simp [Measure.stripBrackets, written, Enclosure.opener, Enclosure.closer]

section Names

variable {kind : TokenKind} {spelling : List Char}

/-- The name of a table is not empty. -/
theorem unquoteTableName_ne_nil (written : kind.IsWritten spelling)
    (named : kind.namesTable = true) : Measure.unquoteTableName spelling ≠ [] := by
  have ofWord {spelling : List Char} (spelled : Piece.isWord spelling = true) :
      Measure.unquoteTableName spelling ≠ [] := by
    rw [unquoteTableName_of_isWord spelled]
    rintro rfl
    cases spelled
  cases written with
  | keyword spelled => exact ofWord spelled
  | identifier spelled => exact ofWord spelled
  | @enclosed enclosure content possible =>
    cases enclosure with
    | quotedName =>
      rw [unquoteTableName_enclosed]
      rintro rfl
      cases named
    | _ => cases named
  | _ => cases named

/-- The name of a measure is not empty, and no bracket is closed in it. -/
theorem stripBrackets_ne_nil (written : kind.IsWritten spelling)
    (named : kind.namesMeasure = true) :
    Measure.stripBrackets spelling ≠ [] ∧ ']' ∉ Measure.stripBrackets spelling := by
  cases written with
  | @enclosed enclosure content possible =>
    cases enclosure with
    | bracketName =>
      rw [stripBrackets_enclosed]
      refine ⟨?_, possible.resolve_left Bool.false_ne_true⟩
      rintro rfl
      cases named
    | _ => cases named
  | _ => cases named

end Names

/-! ## Single measures -/

/-- A text begins with a word in some letter case. -/
def BeginsWith (word : String) (text : List Char) : Prop :=
  ∃ spelled rest, text = spelled ++ rest ∧
    sameIgnoringCase word (String.ofList spelled) = true ∧ rest.head?.any isWordPart = false

/-- An excerpt whose first token is a keyword begins with it. -/
theorem Excerpt.beginsWith {source : List Char} {first : Token} {others : List Token}
    (excerpt : Excerpt source (first :: others)) {word : Keyword}
    (isWord : first.kind = .keyword word) : BeginsWith word.name excerpt.text := by
  obtain ⟨piece, later, pieces, isFirst⟩ := excerpt.exists_first rfl
  have isToken : first ∈ piece.ownTokens (Position.start.advanceAll excerpt.front) := by
    simp [isFirst]
  have written := excerpt.isWritten (by simp [pieces]) isToken
  have alone := excerpt.alone
  rw [isWord] at written
  rw [pieces, Piece.text_cons] at alone
  obtain ⟨char, _, read, _⟩ := Piece.all_eq_cons alone
  refine ⟨piece.spelling, Piece.text later, by rw [text, pieces, Piece.text_cons],
    written.same_of_keyword, ?_⟩
  have placed := (Piece.mem_ownTokens_iff.mp isToken).1
  cases piece with
  | token kind spelling fault =>
    have sameKind : kind = .keyword word := by
      rw [← isWord, ← Option.some.inj placed]
      rfl
    subst sameKind
    exact Piece.head?_of_keyword read
  | _ => cases placed

/-- A measure that is what it claims to be in a source. -/
structure Measure.WellFormed (source : String) (measure : Measure) : Prop where
  /-- The span fits the source and covers the full text. -/
  covered : measure.span.slice? source.toList = some measure.fullText.toList
  begins : BeginsWith "CREATE" measure.fullText.toList ∨
    BeginsWith "MEASURE" measure.fullText.toList
  ends : measure.expression.toList <:+ measure.fullText.toList
  expression : measure.expression ≠ ""
  /-- The expression has no white space at either end. -/
  tight : Tight measure.expression.toList
  tableName : measure.tableName ≠ ""
  name : measure.name ≠ ""
  closed : ']' ∉ measure.name.toList

/-- The span of a measure that is what it claims to be lies within the source. -/
theorem Measure.WellFormed.bounds {source : String} {measure : Measure}
    (wellFormed : measure.WellFormed source) :
    measure.span.start ≤ measure.span.stop ∧ measure.span.stop ≤ byteLength source.toList := by
  have covered := wellFormed.covered
  unfold Span.slice? at covered
  split at covered
  · next forward =>
    obtain ⟨⟨front, behind⟩, cut, covered⟩ := Option.bind_eq_some_iff.mp covered
    obtain ⟨⟨text, after⟩, inner, _⟩ := Option.bind_eq_some_iff.mp covered
    obtain ⟨whole, start⟩ := eq_append_of_splitAtByte? cut
    obtain ⟨rfl, length⟩ := eq_append_of_splitAtByte? inner
    rw [whole, byteLength_append, byteLength_append, start, length]
    simp only [Span.length]
    omega
  · cases covered

theorem ofList_ne_empty {chars : List Char} (some : chars ≠ []) : String.ofList chars ≠ "" := by
  intro same
  exact some (by simpa using congrArg String.toList same)

/-- A statement begins each of its measures with one of two keywords. -/
theorem Statement.opening_cases (statement : Statement) :
    statement.opening = [.create, .measure] ∨ statement.opening = [.measure] := by
  cases statement with
  | define => exact .inr rfl
  | _ => exact .inl rfl

theorem words_of_counted {source : String} {options : ScriptOptions} {words : List Keyword}
    {clause : MeasureClause}
    (member : (words, clause) ∈
      (StatementReport.counted source options).flatMap (·.openedMeasures)) :
    words = [.create, .measure] ∨ words = [.measure] := by
  obtain ⟨report, _, isOpened⟩ := List.mem_flatMap.mp member
  obtain ⟨statement, _, rfl⟩ := StatementReport.exists_statement isOpened
  exact statement.opening_cases

theorem wellFormed_of_counted {source : String} {options : ScriptOptions} {words : List Keyword}
    {clause : MeasureClause}
    (member : (words, clause) ∈
      (StatementReport.counted source options).flatMap (·.openedMeasures)) :
    (Measure.ofClause source.toList clause).WellFormed source := by
  obtain ⟨own, used, whole, body, wholeSpan, bodySpan, suffix, text, reading⟩ :=
    exists_excerpts_of_counted member
  have fullText := fullText_ofClause whole wholeSpan
  have expression := expression_ofClause body bodySpan
  obtain ⟨⟨isTable, tableNamed⟩, isName, measureNamed⟩ := text.names
  have tableSome := unquoteTableName_ne_nil (whole.isWritten_of_mem isTable) tableNamed
  obtain ⟨nameSome, closed⟩ := stripBrackets_ne_nil (whole.isWritten_of_mem isName) measureNamed
  refine ⟨?_, ?_, ?_, ?_, ?_, ofList_ne_empty tableSome, ofList_ne_empty nameSome, ?_⟩
  · rw [fullText, String.toList_ofList, ← whole.slice?_span, wholeSpan]
    rfl
  · obtain ⟨first, others, word, rfl, isHead, isWord⟩ := text.exists_first
    have begins := whole.beginsWith isWord
    rw [fullText, String.toList_ofList]
    rcases words_of_counted member with rfl | rfl <;> cases isHead
    · exact .inl begins
    · exact .inr begins
  · rwa [fullText, expression, String.toList_ofList, String.toList_ofList]
  · rw [expression]
    exact ofList_ne_empty body.text_ne_nil
  · rw [expression, String.toList_ofList]
    exact body.tight
  · rw [Measure.ofClause, String.toList_ofList]
    exact closed

/-- The text of a measure that counts is not empty. -/
theorem start_lt_stop_of_counted {source : String} {options : ScriptOptions} {words : List Keyword}
    {clause : MeasureClause}
    (member : (words, clause) ∈
      (StatementReport.counted source options).flatMap (·.openedMeasures)) :
    clause.span.start < clause.span.stop := by
  obtain ⟨_, _, whole, _, same, _⟩ := exists_excerpts_of_counted member
  have bytes := byteLength_pos whole.text_ne_nil
  rw [← same]
  simp only [Excerpt.span]
  omega

theorem start_lt_stop_of_mem_measures {source : String} {options : ScriptOptions}
    {measure : Measure} (member : measure ∈ (readScript source options).measures) :
    measure.span.start < measure.span.stop := by
  rw [measures_eq_counted] at member
  obtain ⟨⟨words, clause⟩, isCounted, rfl⟩ := List.mem_map.mp member
  exact start_lt_stop_of_counted isCounted

theorem wellFormed_of_mem_measures {source : String} {options : ScriptOptions} {measure : Measure}
    (member : measure ∈ (readScript source options).measures) : measure.WellFormed source := by
  rw [measures_eq_counted] at member
  obtain ⟨⟨words, clause⟩, isCounted, rfl⟩ := List.mem_map.mp member
  exact wellFormed_of_counted isCounted

/-- **The measures that are recorded of a script are well formed**, whatever the source is, and
each ends before the next one begins. -/
theorem measures_wellFormed (source : String) (options : ScriptOptions) :
    (∀ measure ∈ (readScript source options).measures, measure.WellFormed source) ∧
      (readScript source options).measures.Pairwise fun first second =>
        first.span.start < second.span.start ∧ first.span.stop ≤ second.span.start := by
  obtain ⟨front, behind, cut, sound, texts⟩ := exists_front_of_counted source options
  have apart := texts.pairwise (Piece.inOrder_tokens .start front)
  refine ⟨fun measure member => wellFormed_of_mem_measures member, ?_⟩
  rw [measures_eq_counted]
  refine List.pairwise_map.mpr (apart.imp_of_mem ?_)
  rintro ⟨words, clause⟩ second isCounted _ before
  exact ⟨Nat.lt_of_lt_of_le (start_lt_stop_of_counted isCounted) before, before⟩

/-- A measure of its own, with a clause behind its expression, and a measure of a block. -/
theorem measures_wellFormed_block :
    let source := "create Measure 'T''s'[m] = [a]\tCALCULATION PROPERTY General
      DEFINE MEASURE T[n] = f(\"é\") EVALUATE T"
    (readScript source {}).measures.map (fun measure => (measure.tableName, measure.fullText)) =
        [("T's", "create Measure 'T''s'[m] = [a]"), ("T", "MEASURE T[n] = f(\"é\")")] ∧
      (∀ measure ∈ (readScript source {}).measures, measure.WellFormed source) ∧
      (readScript source {}).measures.Pairwise fun first second =>
        first.span.start < second.span.start ∧ first.span.stop ≤ second.span.start := by
  intro source
  have recorded : (readScript source {}).measures.map
      (fun measure => (measure.tableName, measure.fullText)) =
        [("T's", "create Measure 'T''s'[m] = [a]"), ("T", "MEASURE T[n] = f(\"é\")")] := by
    decide +kernel
  exact ⟨recorded, measures_wellFormed source {}⟩

end DaxScript
