import DaxScript.Proofs.Script.Layout

/-!
# Between two turns

What is known of a script between two turns (`Between`): what is left lies in order, nothing but
errors has been recorded, and all measures that have been recorded end before everything that is
wrong or left.  This is so at the beginning of a source and every turn leaves it so, which carries
it through the whole script (`Turn.byTurns`).
-/

set_option autoImplicit false

namespace DaxScript

namespace Turn.Course

variable {source : List Char} {finish : Position} {first : Token} {rest : List Token} {turn : Turn}

/-- The measures of a turn end before all that is left. -/
theorem measures_ahead (course : Course source finish first rest turn)
    {faults : List (List Diagnostic)} (layout : Layout finish faults (first :: rest)) :
    ∀ measure ∈ measures source first rest,
      Ahead measure.span.stop finish (events faults turn.moments).2 turn.rest := by
  intro measure member
  cases course with
  | semicolon sign =>
    rw [measures, if_pos sign] at member
    cases member
  | passed noSign recognised =>
    rw [measures, if_neg noSign, statementAt?, statement_of_recognised? recognised] at member
    simp [measuresOf, Except.toOption, measures_of_recognised? recognised] at member
  | @read statement used left noSign cut reading =>
    rw [measures, if_neg noSign, statementAt?_of_yields (yields_statement_of_rule cut reading)]
      at member
    obtain ⟨clause, isClause, rfl⟩ := List.mem_map.mp member
    have ordered := layout.ordered
    rw [cut] at ordered
    obtain ⟨token, isUsed, stop⟩ := reading.stops ordered.left clause isClause
    have looked : definition source statement left ∈
        (lookingAt rest ⟨[definition source statement left], left⟩).moments := .tail _ (.head _)
    have fewer : (events faults _).2.length ≤ left.length := length_events_le looked
    have ahead := layout.ahead_of_mem cut isUsed (events_suffix faults _)
      (Nat.le_succ_of_le fewer)
    rw [← stop] at ahead
    exact ahead
  | refused noSign refused =>
    rw [measures, if_neg noSign, statementAt?, refused] at member
    cases member

end Turn.Course

/-- A property of lists of tokens that holds of a list if it holds of what a turn leaves of it. -/
theorem Turn.byTurns {motive : List Token → Prop} (source : List Char) (finish : Position)
    (nil : motive [])
    (turn : ∀ first rest, motive (ofTokens source finish first rest).rest → motive (first :: rest))
    (tokens : List Token) : motive tokens := by
  induction counted : tokens.length using Nat.strongRecOn generalizing tokens with
  | ind size ih =>
    cases tokens with
    | nil => exact nil
    | cons first rest =>
      have shorter := length_ofTokens_lt source finish first rest
      exact turn first rest (ih _ (by rw [← counted]; exact shorter) _ rfl)

/-- What is recorded as wrong stays. -/
theorem Recording.items_prefix_readOn (recording : Recording) (source : List Char)
    (finish : Position) (faults : List (List Diagnostic)) (tokens : List Token) :
    recording.collector.items <+:
      (recording.readOn source finish faults tokens).collector.items := by
  induction tokens using Turn.byTurns source finish generalizing recording faults with
  | nil =>
    cases room : recording.collector.overflowed with
    | true => rw [recording.readOn_of_overflowed _ _ _ _ room]
    | false =>
      rw [recording.readOn_nil _ _ _ room, collector_foldl_add]
      exact Collector.items_prefix_pushAll _ _
  | turn first rest ih =>
    cases room : recording.collector.overflowed with
    | true => rw [recording.readOn_of_overflowed _ _ _ _ room]
    | false =>
      rw [recording.readOn_cons _ _ _ _ _ room]
      refine List.IsPrefix.trans ?_ (ih _ _)
      rw [collector_afterTurn]
      exact Collector.items_prefix_pushAll _ _

/-- What is known between two turns of a script. -/
structure Between (finish : Position) (recording : Recording) (faults : List (List Diagnostic))
    (tokens : List Token) : Prop where
  layout : Layout finish faults tokens
  tallied : recording.collector.Tallied
  /-- All measures end before what is left. -/
  ahead : ∀ measure ∈ recording.measures, Ahead measure.span.stop finish faults tokens
  /-- All measures end before all that is wrong. -/
  before : ∀ measure ∈ recording.measures, ∀ diagnostic ∈ recording.collector.items,
    measure.span.stop ≤ diagnostic.position.offset

namespace Between

variable {source : List Char} {finish : Position} {first : Token} {rest : List Token}
  {turn : Turn} {recording : Recording} {faults : List (List Diagnostic)}

/-- **A turn leaves the same known.** -/
theorem afterTurn (between : Between finish recording faults (first :: rest))
    (course : Turn.Course source finish first rest turn) :
    Between finish (recording.afterTurn faults turn) (Turn.events faults turn.moments).2
      turn.rest := by
  obtain ⟨layout, tallied, ahead, before⟩ := between
  have laterFaults := Turn.events_suffix faults turn.moments
  have laterTokens := course.rest_suffix
  have tallied' : (recording.afterTurn faults turn).collector.Tallied := by
    rw [Recording.collector_afterTurn]
    exact tallied.pushAll fun diagnostic told => (course.diagnostics_ahead layout told).1
  -- A measure is an earlier one, or one of this turn in which nothing was wrong.
  have earlierOrNew {measure : Measure}
      (member : measure ∈ (recording.afterTurn faults turn).measures) :
      measure ∈ recording.measures ∨ measure ∈ Turn.Course.measures source first rest ∧
        (recording.afterTurn faults turn).collector.items = [] := by
    rw [course.measures_afterTurn] at member
    rcases List.mem_append.mp member with earlier | new
    · exact .inl earlier
    · split at new
      · cases new
      · next right => exact .inr ⟨new, by simpa using mt tallied'.hasErrors_iff.mpr right⟩
  refine ⟨layout.suffix laterFaults laterTokens, tallied', ?_, ?_⟩
  · intro measure member
    rcases earlierOrNew member with earlier | ⟨new, _⟩
    · exact (ahead measure earlier).suffix laterFaults laterTokens
    · exact course.measures_ahead layout measure new
  · intro measure member diagnostic kept
    rcases earlierOrNew member with earlier | ⟨_, nothing⟩
    · rw [Recording.collector_afterTurn] at kept
      rcases Collector.mem_items_pushAll kept with kept | told
      · exact before measure earlier diagnostic kept
      · exact (course.diagnostics_ahead layout told).2 (ahead measure earlier)
    · rw [nothing] at kept
      cases kept

/-- Where nothing is recorded as wrong in the end nothing has been told in a turn. -/
theorem quiet_of_readOn (between : Between finish recording faults (first :: rest))
    (course : Turn.Course source finish first rest turn) {left : List (List Diagnostic)}
    (nothing : ((recording.afterTurn faults turn).readOn source finish left
      turn.rest).collector.items = []) :
    (Turn.events faults turn.moments).1.flatMap Event.diagnostics = [] := by
  have kept := (recording.afterTurn faults turn).items_prefix_readOn source finish left turn.rest
  rw [nothing, List.prefix_nil, Recording.collector_afterTurn] at kept
  exact between.tallied.eq_nil_of_pushAll
    (fun diagnostic told => (course.diagnostics_ahead between.layout told).1) kept

end Between

/-- Groups of diagnostics are empty if nothing is told about them in a turn or left for later. -/
theorem Turn.flatten_eq_nil_of_events {faults : List (List Diagnostic)} {moments : List Moment}
    (quiet : (events faults moments).1.flatMap Event.diagnostics = [])
    (later : (events faults moments).2.flatten = []) : faults.flatten = [] := by
  obtain ⟨told, split, silent⟩ := exists_told faults moments
  rw [split, List.flatten_append, silent quiet, later]
  rfl

namespace Between

variable {source : List Char} {finish : Position} {recording : Recording}
  {faults : List (List Diagnostic)} {tokens : List Token}

theorem hasErrors_eq_false (between : Between finish recording faults tokens)
    (nothing : (recording.readOn source finish faults tokens).collector.items = []) :
    recording.collector.hasErrors = false := by
  have kept := recording.items_prefix_readOn source finish faults tokens
  rw [nothing, List.prefix_nil] at kept
  exact between.tallied.hasErrors_eq_false kept

/-- **A text about which nothing is told has no faults.** -/
theorem flatten_faults_eq_nil (between : Between finish recording faults tokens)
    (nothing : (recording.readOn source finish faults tokens).collector.items = []) :
    faults.flatten = [] := by
  induction tokens using Turn.byTurns source finish generalizing recording faults with
  | nil =>
    have room := Collector.overflowed_of_right (between.hasErrors_eq_false nothing)
    rw [recording.readOn_nil _ _ _ room, Recording.collector_foldl_add,
      Event.diagnostics_diagnosed] at nothing
    exact between.tallied.eq_nil_of_pushAll between.layout.errors nothing
  | turn first rest ih =>
    have room := Collector.overflowed_of_right (between.hasErrors_eq_false nothing)
    rw [recording.readOn_cons _ _ _ _ _ room] at nothing
    have course := Turn.course source finish first rest
    exact Turn.flatten_eq_nil_of_events (between.quiet_of_readOn course nothing)
      (ih (between.afterTurn course) nothing)

end Between

/-- At the beginning of a source nothing has been recorded. -/
theorem Between.ofSource (source : String) (maxErrors : Nat) :
    Between (Input.ofSource source).finish (.withLimit maxErrors) (Input.ofSource source).faults
      (Input.ofSource source).tokens where
  layout := Input.layout source
  tallied := .withLimit maxErrors
  ahead measure member := by cases member
  before measure member := by cases member

end DaxScript
