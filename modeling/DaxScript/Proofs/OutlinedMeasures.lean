import DaxScript.Proofs.Outline.Turns
import DaxScript.Proofs.OutlineOfTokens
import DaxScript.Proofs.WellFormedMeasures

/-!
# The outline holds the measures

The outline of a script and its measures are read off the source in two ways that share nothing, and
they agree on where the measures are: each measure lies in exactly one statement of the outline, and
measures of different statements lie in different ones (`outline_measures`).

The outline counts parentheses and braces apart, where a statement that is passed over counts them
together.  So a sign that closes one of the other kind lets the two lose each other, and the outline
may then miss a measure.  The same goes for a comment that a lone carriage return ends and for a
statement that begins with an opening sign (`outline_misses_measure`).
-/

set_option autoImplicit false

namespace DaxScript

open TokenOutline

/-- Whether a statement of the outline reaches over a span. -/
def StatementSpan.includes (statement : StatementSpan) (span : Span) : Bool :=
  statement.start ≤ span.start && span.stop ≤ statement.stop

theorem StatementSpan.includes_iff {statement : StatementSpan} {span : Span} :
    statement.includes span = true ↔ statement.start ≤ span.start ∧ span.stop ≤ statement.stop := by
  simp [includes]

/-- Of statements one behind the other only one reaches over a span that is not empty. -/
theorem StatementSpan.filter_includes {statements : List StatementSpan} {statement : StatementSpan}
    {span : Span} (apart : statements.Pairwise fun earlier later => earlier.stop ≤ later.start)
    (member : statement ∈ statements) (inside : statement.includes span = true)
    (nonempty : span.start < span.stop) :
    statements.filter (·.includes span) = [statement] := by
  obtain ⟨front, behind, rfl⟩ := List.append_of_mem member
  rw [List.pairwise_append, List.pairwise_cons] at apart
  obtain ⟨_, ⟨later, _⟩, earlier⟩ := apart
  have bounds := includes_iff.mp inside
  have noneInFront : front.filter (·.includes span) = [] := by
    refine List.filter_eq_nil_iff.mpr fun other isOther reaches => ?_
    have before := earlier other isOther statement (.head _)
    rw [includes_iff] at reaches
    omega
  have noneBehind : behind.filter (·.includes span) = [] := by
    refine List.filter_eq_nil_iff.mpr fun other isOther reaches => ?_
    have after := later other isOther
    rw [includes_iff] at reaches
    omega
  rw [List.filter_append, noneInFront, List.nil_append, List.filter_cons, if_pos inside, noneBehind]

/-! ## Statements of a script whose text is sound -/

section Sound

variable {source : String} (sound : ∀ piece ∈ Piece.all source.toList, piece.fault? = none)
  (comments : Piece.closesComments (Piece.all source.toList) = true)

include sound comments

theorem map_span_outline : (outline source).map StatementSpan.span =
    statements .between (Input.ofSource source).tokens := by
  rw [Input.tokens_ofSource]
  exact outlined source.toList .start sound comments .between

/-- The statements of the outline stand one behind the other. -/
theorem pairwise_outline :
    (outline source).Pairwise fun earlier later => earlier.stop ≤ later.start := by
  have stand : StandFrom (State.start .between 0)
      (statements .between (Input.ofSource source).tokens) :=
    standFrom_statements (fun _ none => by cases none) (Input.inOrder_tokens source)
      fun _ _ => Nat.zero_le _
  rw [← map_span_outline sound comments] at stand
  exact List.pairwise_map.mp stand.apart

/-- A portion that defines measures has a statement of the outline that begins where it does and
reaches over them. -/
theorem exists_statement_of_portion
    (agrees : ∀ portion ∈ Portion.ofSource source, portion.statement?.isSome = true ∧
      portion.keepsWords = true ∧ portion.keepsSigns = true)
    {portion : Portion} (member : portion ∈ Portion.ofSource source)
    {measure : Measure} (isOwn : measure ∈ portion.measures source.toList) :
    ∃ statement ∈ outline source, statement.start = portion.first.span.start ∧
      statement.includes measure.span = true := by
  have spelled : ∀ token ∈ (Input.ofSource source).tokens, token.IsSpelled := by
    rw [Input.tokens_ofSource]
    exact fun token => Piece.isSpelled_of_mem_tokens
  obtain ⟨span, listed, start, reaches⟩ := exists_span_of_portion (.between _) spelled
    (Input.inOrder_tokens source) agrees portion member (List.ne_nil_of_mem isOwn)
  rw [← map_span_outline sound comments] at listed
  obtain ⟨statement, isListed, rfl⟩ := List.mem_map.mp listed
  obtain ⟨begins, last, isLast, ends⟩ :=
    Portion.measure_within member (Input.inOrder_tokens source) isOwn
  exact ⟨statement, isListed, start, StatementSpan.includes_iff.mpr
    ⟨start.trans_le begins, ends.trans_le (reaches last isLast)⟩⟩

end Sound

/-- The statements of the outline of a source hold its measures. -/
structure OutlineHolds (source : String) (measures : List Measure) : Prop where
  /-- The measures are those of the statements of the source. -/
  defined : measures = (Portion.ofSource source).flatMap (·.measures source.toList)
  /-- A measure lies in exactly one statement of the outline. -/
  once : ∀ measure ∈ measures, ∃ statement,
    (outline source).filter (·.includes measure.span) = [statement]
  /-- Measures of two statements of the source lie in different statements of the outline. -/
  apart : (Portion.ofSource source).Pairwise fun earlier later =>
    ∀ first ∈ earlier.measures source.toList, ∀ second ∈ later.measures source.toList,
      ∀ statement ∈ outline source, statement.includes first.span = true →
        statement.includes second.span = false

/-- **The outline of a script holds its measures** where opening words are used to open statements
only, a statement that is passed over begins with no opening sign and closes none of the other kind,
and comments end with their lines. -/
theorem outline_measures {source : String} {measures : List Measure}
    (read : readMeasures source = .ok measures)
    (words : ∀ portion ∈ Portion.ofSource source, portion.keepsWords = true)
    (signs : ∀ portion ∈ Portion.ofSource source, portion.keepsSigns = true)
    (comments : Piece.closesComments (Piece.all source.toList) = true) :
    OutlineHolds source measures := by
  obtain ⟨sound, areRead, defined⟩ := portions_of_readMeasures read
  have agrees : ∀ portion ∈ Portion.ofSource source, portion.statement?.isSome = true ∧
      portion.keepsWords = true ∧ portion.keepsSigns = true :=
    fun portion member => ⟨areRead portion member, words portion member, signs portion member⟩
  have nonempty {measure : Measure} (member : measure ∈ measures) :
      measure.span.start < measure.span.stop := by
    rw [eq_measures_of_readMeasures read] at member
    exact start_lt_stop_of_mem_measures member
  have unique {statement other : StatementSpan} {measure : Measure} (isDefined : measure ∈ measures)
      (isListed : statement ∈ outline source) (inside : statement.includes measure.span = true)
      (isOther : other ∈ outline source) (reaches : other.includes measure.span = true) :
      other = statement := by
    have only := StatementSpan.filter_includes (pairwise_outline sound comments) isListed inside
      (nonempty isDefined)
    exact List.mem_singleton.mp (only ▸ List.mem_filter.mpr ⟨isOther, reaches⟩)
  refine ⟨defined, fun measure isDefined => ?_, ?_⟩
  · have ⟨portion, member, isOwn⟩ := List.mem_flatMap.mp (defined ▸ isDefined)
    obtain ⟨statement, isListed, _, inside⟩ :=
      exists_statement_of_portion sound comments agrees member isOwn
    exact ⟨statement, StatementSpan.filter_includes (pairwise_outline sound comments) isListed
      inside (nonempty isDefined)⟩
  · have ordered := Input.inOrder_tokens source
    refine (Portion.pairwise_all ordered).imp_of_mem fun {earlier later} isEarlier isLater apart
      first isFirst second isSecond statement isListed inside => ?_
    refine Bool.eq_false_iff.mpr fun reaches => ?_
    -- The statement would begin with both portions.
    have isDefined {portion : Portion} {measure : Measure}
        (member : portion ∈ Portion.ofSource source)
        (isOwn : measure ∈ portion.measures source.toList) : measure ∈ measures :=
      defined ▸ List.mem_flatMap.mpr ⟨portion, member, isOwn⟩
    obtain ⟨front, isFront, atEarlier, overFirst⟩ :=
      exists_statement_of_portion sound comments agrees isEarlier isFirst
    obtain ⟨back, isBack, atLater, overSecond⟩ :=
      exists_statement_of_portion sound comments agrees isLater isSecond
    have sameFront := unique (isDefined isEarlier isFirst) isFront overFirst isListed inside
    have sameBack := unique (isDefined isLater isSecond) isBack overSecond isListed reaches
    obtain ⟨begins, last, isLast, ends⟩ := Portion.measure_within isEarlier ordered isFirst
    have before := apart last isLast
    have some := nonempty (isDefined isEarlier isFirst)
    rw [← sameFront] at atEarlier
    rw [← sameBack] at atLater
    omega

/-- A statement of its own, one that is passed over and a block of definitions, of which the first
is `MEASURE t[b] = {2}`. -/
theorem outline_measures_block :
    let source := "CREATE MEASURE t[a] = 1; DROP x ( ALTER ) DEFINE MEASURE t[b] = \x7b2\x7d" ++
      "-- ;\nMEASURE t[c] = 3 EVALUATE t"
    ∃ measures, readMeasures source = .ok measures ∧ measures.map Measure.name = ["a", "b", "c"] ∧
      OutlineHolds source measures := by
  intro source
  have names : (readMeasures source).toOption.map (·.map Measure.name) = some ["a", "b", "c"] := by
    decide +kernel
  cases read : readMeasures source with
  | error =>
    rw [read] at names
    cases names
  | ok measures =>
    rw [read] at names
    exact ⟨measures, rfl, Option.some.inj names,
      outline_measures read (by decide +kernel) (by decide +kernel) (by decide +kernel)⟩

/-- The outline of a script with one measure misses it, although its opening words are used to open
statements only. -/
def OutlineMisses (source : String) : Prop :=
  (∀ portion ∈ Portion.ofSource source, openingWords portion.further = []) ∧
    ∃ measure, readMeasures source = .ok [measure] ∧ ¬OutlineHolds source [measure]

/-- It does if it is empty. -/
theorem outlineMisses_of_outline_eq_nil {source : String} (empty : outline source = [])
    (words : ∀ portion ∈ Portion.ofSource source, openingWords portion.further = [])
    (single : (readMeasures source).toOption.map List.length = some 1) : OutlineMisses source := by
  refine ⟨words, ?_⟩
  cases read : readMeasures source with
  | error =>
    rw [read] at single
    cases single
  | ok measures =>
    rw [read] at single
    obtain ⟨measure, rfl⟩ := List.length_eq_one_iff.mp (Option.some.inj single)
    refine ⟨measure, rfl, fun holds => ?_⟩
    obtain ⟨statement, only⟩ := holds.once measure (.head _)
    rw [empty] at only
    cases only

/-- A closing sign of the other kind as in `FOO ( } ;`, a statement that begins with an opening
sign, and a comment that a carriage return ends: each time the outline misses the measure that
follows. -/
theorem outline_misses_measure :
    OutlineMisses "FOO ( \x7d ; CREATE MEASURE T[a] = 1" ∧
      OutlineMisses "( ; CREATE MEASURE T[a] = 1" ∧
      OutlineMisses "-- a\rCREATE MEASURE T[a] = 1" := by
  refine ⟨?_, ?_, ?_⟩ <;>
    exact outlineMisses_of_outline_eq_nil (by decide +kernel) (by decide +kernel)
      (by decide +kernel)

end DaxScript
