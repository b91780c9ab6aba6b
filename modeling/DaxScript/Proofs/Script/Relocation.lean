import DaxScript.Proofs.Grammar.StatementRelocation
import DaxScript.Proofs.Script.Between
import DaxScript.Proofs.Token.Relocation

/-!
# Reading relocated scripts

What is left of a script is read in the same turns wherever it stands (`Relocation.ofTokens_map`).
What becomes of its measures depends on the text that its spans cover there, so that is a parameter
(`Relocation.Carries`); as long as the texts under the spans are the same, the measures are the same
but for their spans (`Relocation.KeepsTexts`).  So whatever has been recorded before, what is
recorded of the script is the same but for the places (`Relocation.Continues.readOn`).
-/

set_option autoImplicit false

namespace DaxScript.Relocation

variable (place : Relocation)

/-! ## Relocated turns -/

def measure (measure : Measure) : Measure :=
  { measure with span := place.span measure.span }

section Events

variable (carry : Measure → Measure)

/-- An event in another place, given what becomes of the measures. -/
def event : Event → Event
  | .diagnosed diagnostic => .diagnosed (place.diagnostic diagnostic)
  | .defined measure => .defined (carry measure)
  | .passedCreate object position => .passedCreate object (place.position position)
  | .passed first position => .passed first (place.position position)

def moment (moment : Moment) : Moment :=
  { moment with events := moment.events.map (place.event carry) }

def turn (turn : Turn) : Turn :=
  ⟨turn.moments.map (place.moment carry), turn.rest.map place.token⟩

end Events

/-- Relocated definitions of a source define the measures that become of those of the
definitions. -/
def Carries (carry : Measure → Measure) (source moved : List Char) : Prop :=
  ∀ clause : MeasureClause,
    Measure.ofClause moved (place.clause clause) = carry (Measure.ofClause source clause)

/-- A span covers the same text in its new place. -/
def KeepsTexts (source moved : List Char) : Prop :=
  ∀ span : Span, (place.span span).slice moved = span.slice source

variable {place} {carry : Measure → Measure} {source moved : List Char}

theorem span_clause (clause : MeasureClause) :
    (place.clause clause).span = place.span clause.span := by
  simp [MeasureClause.span, Relocation.clause, Relocation.span, Span.moved]

theorem ofClause_clause (texts : place.KeepsTexts source moved) :
    place.Carries place.measure source moved := by
  intro clause
  have whole : (place.clause clause).span = place.span clause.span := span_clause clause
  have body : (place.clause clause).body.span = place.span clause.body.span := span_expr _
  have sameBody := texts clause.body.span
  have sameWhole := texts clause.span
  simp only [Measure.ofClause, whole, body, sameBody, sameWhole]
  rfl

/-- Passing over tokens depends on their kinds only. -/
theorem pass_map (depth : Nat) (tokens : List Token) :
    Turn.pass depth (tokens.map place.token) =
      ((Turn.pass depth tokens).1, (Turn.pass depth tokens).2.map place.token) := by
  induction tokens generalizing depth with
  | nil => rfl
  | cons token rest ih =>
    simp only [List.map_cons, Turn.pass, kind_token, List.length_map]
    split
    · split
      · rfl
      · exact ih _
    · split
      · rfl
      · exact ih _
    all_goals exact ih _

theorem passAfter_map (happened : Moment) (tokens : List Token) :
    Turn.passAfter (place.moment carry happened) (tokens.map place.token) =
      place.turn carry (Turn.passAfter happened tokens) := by
  have silent : place.moment carry (Turn.pass 0 tokens).1 = (Turn.pass 0 tokens).1 := by
    have none := Turn.events_pass 0 tokens
    generalize (Turn.pass 0 tokens).1 = moment at none
    obtain ⟨unseen, events⟩ := moment
    subst none
    rfl
  simp only [Turn.passAfter, pass_map, Relocation.turn, List.map_cons, List.map_nil, silent]

theorem ofStatement_map (statement : Statement) (carries : ∀ clause ∈ statement.measures,
      Measure.ofClause moved (place.clause clause) = carry (Measure.ofClause source clause))
    (tokens rest : List Token) :
    Turn.ofStatement moved (place.statement statement) (tokens.map place.token)
        (rest.map place.token) =
      place.turn carry (Turn.ofStatement source statement tokens rest) := by
  have read (measures : List MeasureClause) (carries : ∀ clause ∈ measures,
      Measure.ofClause moved (place.clause clause) = carry (Measure.ofClause source clause)) :
      (⟨[⟨(rest.map place.token).length, (measures.map place.clause).map fun clause =>
          .defined (.ofClause moved clause)⟩], rest.map place.token⟩ : Turn) =
        place.turn carry ⟨[⟨rest.length, measures.map fun clause =>
          .defined (.ofClause source clause)⟩], rest⟩ := by
    have same : (measures.map place.clause).map (fun clause =>
          Event.defined (.ofClause moved clause)) =
        (measures.map fun clause => Event.defined (.ofClause source clause)).map
          (place.event carry) := by
      rw [List.map_map, List.map_map]
      refine List.map_congr_left fun clause member => ?_
      exact congrArg Event.defined (carries clause member)
    rw [same, List.length_map]
    rfl
  cases statement with
  | unsupported first =>
    simp only [Relocation.statement, Turn.ofStatement, List.length_map]
    exact @passAfter_map place carry ⟨tokens.length, [.passed first.kind first.position]⟩ rest
  | createOther create object =>
    simp only [Relocation.statement, Turn.ofStatement, List.length_map]
    exact @passAfter_map place carry ⟨rest.length, [.passedCreate object create.position]⟩ rest
  | createMeasure clause => exact read [clause] carries
  | define definitions query =>
    have defined := read (Statement.define definitions query).measures carries
    rw [← measures_statement] at defined
    exact defined
  | evaluate query => exact read [] carries
  | expression value => exact read [] carries

theorem ofRefusal_map (finish : Position) (refusal : Refusal) (rest : List Token) :
    Turn.ofRefusal (place.position finish) (place.refusal refusal) (rest.map place.token) =
      place.turn carry (Turn.ofRefusal finish refusal rest) := by
  have told : (place.refusal refusal).diagnostic (place.position finish) =
      place.diagnostic (refusal.diagnostic finish) := by
    obtain ⟨issue, position?, unread, unseen⟩ := refusal
    cases position? <;> rfl
  have passed := @passAfter_map place carry
    ⟨refusal.unseen, [.diagnosed (refusal.diagnostic finish)]⟩
    (rest.drop (rest.length - refusal.unread))
  simp only [moment, List.map_cons, List.map_nil, event, ← told, List.map_drop] at passed
  rw [Turn.ofRefusal, List.length_map]
  exact passed

/-- **Every turn goes in the same way in its new place**, given what becomes of the measures that
are defined in it. -/
theorem ofTokens_map_of_measures (finish : Position) (first : Token) (rest : List Token)
    (carries : ∀ statement ∈ statementAt? first rest, ∀ clause ∈ statement.measures,
      Measure.ofClause moved (place.clause clause) = carry (Measure.ofClause source clause)) :
    Turn.ofTokens moved (place.position finish) (place.token first) (rest.map place.token) =
      place.turn carry (Turn.ofTokens source finish first rest) := by
  have moves := @moves_statement place first rest
  unfold Turn.ofTokens
  rw [kind_token, List.length_map]
  by_cases sign : first.kind = .symbol .semicolon
  · rw [if_pos sign, if_pos sign]
    rfl
  · rw [if_neg sign, if_neg sign, moves]
    cases outcome : Production.statement first rest with
    | error refusal =>
      have refused := @ofRefusal_map place carry finish refusal rest
      simp only [reading, refused]
      rfl
    | ok parsed =>
      have found : statementAt? first rest = some parsed.value := by
        rw [statementAt?, outcome]
        rfl
      have ended := ofStatement_map parsed.value (carries _ found) (first :: rest) parsed.rest
      rw [List.map_cons] at ended
      simp only [reading, value_parsed, rest_parsed, ended]
      rfl

theorem ofTokens_map (carries : place.Carries carry source moved) (finish : Position)
    (first : Token) (rest : List Token) :
    Turn.ofTokens moved (place.position finish) (place.token first) (rest.map place.token) =
      place.turn carry (Turn.ofTokens source finish first rest) :=
  ofTokens_map_of_measures finish first rest fun _ _ clause _ => carries clause

theorem events_map (faults : List (List Diagnostic)) (moments : List Moment) :
    Turn.events (faults.map (List.map place.diagnostic)) (moments.map (place.moment carry)) =
      ((Turn.events faults moments).1.map (place.event carry),
        (Turn.events faults moments).2.map (List.map place.diagnostic)) := by
  induction moments generalizing faults with
  | nil => rfl
  | cons moment moments ih =>
    have told (diagnostics : List Diagnostic) :
        (diagnostics.map place.diagnostic).map Event.diagnosed =
          (diagnostics.map Event.diagnosed).map (place.event carry) := by
      rw [List.map_map, List.map_map]
      rfl
    simp only [List.map_cons, Turn.events, List.length_map, ← List.map_drop, ← List.map_take, ih,
      ← List.map_flatten, told, List.map_append]
    rfl

/-! ## Relocated recordings -/

variable (place) in
def collector (collector : Collector) : Collector :=
  { collector with items := collector.items.map place.diagnostic }

theorem push_collector (collector : Collector) (diagnostic : Diagnostic) :
    (place.collector collector).push (place.diagnostic diagnostic) =
      place.collector (collector.push diagnostic) := by
  have accepts : (place.collector collector).accepts (place.diagnostic diagnostic) =
      collector.accepts diagnostic := rfl
  unfold Collector.push
  rw [accepts]
  split
  · simp only [Relocation.collector, List.map_append, List.map_cons, List.map_nil]
    rfl
  · rfl

/-- A recording is what was recorded of a script in its new place, after the measures that stand
before it. -/
structure Continues (place : Relocation) (carry : Measure → Measure) (before : List Measure)
    (alone joined : Recording) : Prop where
  measures : joined.measures = before ++ alone.measures.map carry
  collector : joined.collector = place.collector alone.collector

namespace Continues

variable {before : List Measure} {alone joined : Recording}

theorem add (continues : Continues place carry before alone joined) (event : Event) :
    Continues place carry before (alone.add event) (joined.add (place.event carry event)) := by
  obtain ⟨measures, collector⟩ := continues
  cases event with
  | diagnosed diagnostic =>
    refine ⟨?_, ?_⟩
    · have sameJoined := joined.measures_diagnose (place.diagnostic diagnostic)
      have sameAlone := alone.measures_diagnose diagnostic
      exact sameJoined.trans (by rw [measures, ← sameAlone]; rfl)
    · have pushed := joined.collector_diagnose (place.diagnostic diagnostic)
      rw [collector, push_collector, ← alone.collector_diagnose] at pushed
      exact pushed
  | defined measure =>
    refine ⟨?_, ?_⟩
    · have sameErrors : joined.collector.hasErrors = alone.collector.hasErrors := by
        rw [collector]
        rfl
      change (joined.define (carry measure)).measures =
        before ++ (alone.define measure).measures.map carry
      unfold Recording.define
      rw [sameErrors]
      split
      · exact measures
      · simp [Recording.note, measures]
    · have kept := joined.collector_define (carry measure)
      rw [collector, ← alone.collector_define measure] at kept
      exact kept
  | passedCreate => exact ⟨measures, collector⟩
  | passed => exact ⟨measures, collector⟩

theorem foldl_add (continues : Continues place carry before alone joined) (events : List Event) :
    Continues place carry before (events.foldl Recording.add alone)
      ((events.map (place.event carry)).foldl Recording.add joined) := by
  induction events generalizing alone joined with
  | nil => exact continues
  | cons event events ih => exact ih (continues.add event)

/-- **What is left of two scripts is recorded in the same way** if it is related so that the same
happens in a turn of both and what is left by the turns is related again. -/
theorem readOn_of_related (related : List Token → List Token → Prop) {finish : Position}
    (atEnd : ∀ others, related [] others → others = [])
    (turns : ∀ first rest others, related (first :: rest) others → ∃ other later,
      others = other :: later ∧
      (Turn.ofTokens moved (place.position finish) other later).moments =
        (Turn.ofTokens source finish first rest).moments.map (place.moment carry) ∧
      related (Turn.ofTokens source finish first rest).rest
        (Turn.ofTokens moved (place.position finish) other later).rest)
    (continues : Continues place carry before alone joined) (faults : List (List Diagnostic))
    {tokens others : List Token} (left : related tokens others) :
    Continues place carry before (alone.readOn source finish faults tokens)
      (joined.readOn moved (place.position finish) (faults.map (List.map place.diagnostic))
        others) := by
  induction tokens using Turn.byTurns source finish generalizing alone joined faults others with
  | nil =>
    obtain rfl := atEnd others left
    have sameRoom : joined.collector.overflowed = alone.collector.overflowed := by
      rw [continues.collector]
      rfl
    cases room : alone.collector.overflowed with
    | true =>
      rw [alone.readOn_of_overflowed _ _ _ _ room,
        joined.readOn_of_overflowed _ _ _ _ (sameRoom.trans room)]
      exact continues
    | false =>
      have told := continues.foldl_add (faults.flatten.map Event.diagnosed)
      rw [List.map_map] at told
      rw [alone.readOn_nil _ _ _ room, joined.readOn_nil _ _ _ (sameRoom.trans room),
        ← List.map_flatten, List.map_map]
      exact told
  | turn first rest ih =>
    obtain ⟨other, later, rfl, sameMoments, left⟩ := turns first rest others left
    have sameRoom : joined.collector.overflowed = alone.collector.overflowed := by
      rw [continues.collector]
      rfl
    cases room : alone.collector.overflowed with
    | true =>
      rw [alone.readOn_of_overflowed _ _ _ _ room,
        joined.readOn_of_overflowed _ _ _ _ (sameRoom.trans room)]
      exact continues
    | false =>
      rw [alone.readOn_cons _ _ _ _ _ room, joined.readOn_cons _ _ _ _ _ (sameRoom.trans room)]
      simp only [Recording.afterTurn, sameMoments, events_map]
      exact ih (continues.foldl_add _) _ left

/-- **What is left of a script is recorded in the same way in its new place.** -/
theorem readOn (continues : Continues place carry before alone joined)
    (carries : place.Carries carry source moved) (finish : Position)
    (faults : List (List Diagnostic)) (tokens : List Token) :
    Continues place carry before (alone.readOn source finish faults tokens)
      (joined.readOn moved (place.position finish) (faults.map (List.map place.diagnostic))
        (tokens.map place.token)) := by
  refine readOn_of_related (fun tokens others => others = tokens.map place.token)
    (fun _ same => same) ?_ continues faults rfl
  rintro first rest _ rfl
  rw [List.map_cons]
  refine ⟨_, _, rfl, ?_⟩
  rw [ofTokens_map carries]
  exact ⟨rfl, rfl⟩

end Continues

end DaxScript.Relocation
