import DaxScript.Proofs.Diagnostic.Collecting
import DaxScript.Script

/-!
# What events leave behind

Of the events of a script two things are kept: the diagnostics among them, as far as there is
room, and the measures that are defined while nothing is wrong.  When the measures come last, as
they do in every turn, either all of them are kept or none
(`Recording.measures_foldl_add_append`).

A script is read turn by turn, and what is recorded in the end is determined between any two turns
by what has been recorded and by what is left (`Recording.readOn`).
-/

set_option autoImplicit false

namespace DaxScript

namespace Event

/-- The diagnostic that an event tells, if it tells one. -/
def diagnostics : Event → List Diagnostic
  | diagnosed diagnostic => [diagnostic]
  | _ => []

/-- The measure that an event defines, if it defines one. -/
def measures : Event → List Measure
  | defined measure => [measure]
  | _ => []

/-- Events that define the given measures. -/
def definitions (measures : List Measure) : List Event :=
  measures.map defined

@[simp] theorem measures_diagnosed (diagnostics : List Diagnostic) :
    (diagnostics.map diagnosed).flatMap measures = [] := by
  simp [List.flatMap_map, measures]

@[simp] theorem diagnostics_diagnosed (diagnostics : List Diagnostic) :
    (diagnostics.map diagnosed).flatMap Event.diagnostics = diagnostics := by
  simp [List.flatMap_map, Event.diagnostics]

@[simp] theorem measures_definitions (defined : List Measure) :
    (definitions defined).flatMap measures = defined := by
  simp [definitions, List.flatMap_map, measures]

@[simp] theorem diagnostics_definitions (defined : List Measure) :
    (definitions defined).flatMap diagnostics = [] := by
  simp [definitions, List.flatMap_map, diagnostics]

end Event

namespace Recording

variable (recording : Recording)

theorem collector_diagnose (diagnostic : Diagnostic) :
    (recording.diagnose diagnostic).collector = recording.collector.push diagnostic := by
  unfold diagnose
  simp only
  split
  · rfl
  · rfl

theorem measures_diagnose (diagnostic : Diagnostic) :
    (recording.diagnose diagnostic).measures = recording.measures := by
  unfold diagnose
  simp only
  split
  · rfl
  · rfl

theorem collector_define (measure : Measure) :
    (recording.define measure).collector = recording.collector := by
  unfold define
  split
  · rfl
  · rfl

/-- The diagnostics of an event are taken, whatever else it is. -/
theorem collector_add (event : Event) :
    (recording.add event).collector = recording.collector.pushAll event.diagnostics := by
  cases event with
  | diagnosed diagnostic => exact recording.collector_diagnose diagnostic
  | defined measure => exact recording.collector_define measure
  | passedCreate => rfl
  | passed => rfl

/-- **All diagnostics are taken in order.** -/
theorem collector_foldl_add (events : List Event) :
    (events.foldl add recording).collector =
      recording.collector.pushAll (events.flatMap Event.diagnostics) := by
  induction events generalizing recording with
  | nil => rfl
  | cons event events ih =>
    rw [List.foldl_cons, ih, collector_add, List.flatMap_cons, Collector.pushAll_append]

/-- Where nothing is defined no measure is added. -/
theorem measures_foldl_add {events : List Event} (quiet : events.flatMap Event.measures = []) :
    (events.foldl add recording).measures = recording.measures := by
  induction events generalizing recording with
  | nil => rfl
  | cons event events ih =>
    rw [List.flatMap_cons, List.append_eq_nil_iff] at quiet
    rw [List.foldl_cons, ih _ quiet.2]
    cases event with
    | diagnosed diagnostic => exact recording.measures_diagnose diagnostic
    | defined measure => cases quiet.1
    | passedCreate => rfl
    | passed => rfl

/-- What is defined is added, unless something was wrong before. -/
theorem measures_foldl_definitions (measures : List Measure) :
    ((Event.definitions measures).foldl add recording).measures =
      recording.measures ++ if recording.collector.hasErrors then [] else measures := by
  induction measures generalizing recording with
  | nil =>
    rw [ite_self, List.append_nil]
    rfl
  | cons measure measures ih =>
    have later := ih (recording.define measure)
    rw [collector_define] at later
    refine later.trans ?_
    unfold define
    by_cases wrong : recording.collector.hasErrors = true
    · rw [if_pos wrong, if_pos wrong, if_pos wrong]
      rfl
    · rw [if_neg wrong, if_neg wrong, if_neg wrong]
      exact List.append_assoc _ _ _

/-- **Of measures that are defined last, all are added or none.** -/
theorem measures_foldl_add_append {events : List Event}
    (quiet : events.flatMap Event.measures = []) (measures : List Measure) :
    ((events ++ Event.definitions measures).foldl add recording).measures =
      recording.measures ++
        if ((events ++ Event.definitions measures).foldl add recording).collector.hasErrors then []
        else measures := by
  have sameCollector : ((events ++ Event.definitions measures).foldl add recording).collector =
      (events.foldl add recording).collector := by
    rw [collector_foldl_add, collector_foldl_add, List.flatMap_append,
      Event.diagnostics_definitions, List.append_nil]
  rw [sameCollector, List.foldl_append, measures_foldl_definitions, measures_foldl_add _ quiet]

/-- Where nothing is wrong all that is defined is added. -/
theorem measures_foldl_add_of_right {events : List Event}
    (quiet : events.flatMap Event.diagnostics = [])
    (right : recording.collector.hasErrors = false) :
    (events.foldl add recording).measures =
      recording.measures ++ events.flatMap Event.measures := by
  induction events generalizing recording with
  | nil => exact (List.append_nil _).symm
  | cons event events ih =>
    rw [List.flatMap_cons, List.append_eq_nil_iff] at quiet
    have sameCollector : (recording.add event).collector = recording.collector := by
      rw [collector_add, quiet.1]
      rfl
    have stillRight : (recording.add event).collector.hasErrors = false := by
      rw [sameCollector, right]
    rw [List.foldl_cons, ih _ quiet.2 stillRight, List.flatMap_cons, ← List.append_assoc]
    congr 1
    cases event with
    | diagnosed diagnostic => cases quiet.1
    | defined measure =>
      change (recording.define measure).measures = _
      rw [define, right]
      rfl
    | passedCreate => exact (List.append_nil _).symm
    | passed => exact (List.append_nil _).symm

/-! ## Turns -/

/-- What has been recorded after a turn before which the groups of diagnostics were left. -/
def afterTurn (faults : List (List Diagnostic)) (turn : Turn) : Recording :=
  (Turn.events faults turn.moments).1.foldl add recording

theorem collector_afterTurn (faults : List (List Diagnostic)) (turn : Turn) :
    (recording.afterTurn faults turn).collector =
      recording.collector.pushAll
        ((Turn.events faults turn.moments).1.flatMap Event.diagnostics) :=
  recording.collector_foldl_add _

/-! ## Reading on -/

/-- What has been recorded in the end when the tokens and the groups of diagnostics are left. -/
def readOn (source : List Char) (finish : Position) (faults : List (List Diagnostic))
    (tokens : List Token) : Recording :=
  recording.addTurns (Turn.allEvents faults (Turn.all source finish tokens))

section ReadOn

variable (source : List Char) (finish : Position) (faults : List (List Diagnostic))

/-- Once a diagnostic has been dropped nothing changes any more. -/
theorem readOn_of_overflowed (tokens : List Token)
    (overflowed : recording.collector.overflowed = true) :
    recording.readOn source finish faults tokens = recording := by
  unfold readOn
  cases Turn.allEvents faults (Turn.all source finish tokens) with
  | nil => rfl
  | cons => exact if_pos overflowed

/-- At the end all diagnostics that are left are told. -/
theorem readOn_nil (room : recording.collector.overflowed = false) :
    recording.readOn source finish faults [] =
      (faults.flatten.map Event.diagnosed).foldl add recording := by
  unfold readOn
  rw [Turn.all]
  simp [Turn.allEvents, Turn.events, addTurns, room]

/-- No measure is defined at the end. -/
theorem measures_readOn_nil :
    (recording.readOn source finish faults []).measures = recording.measures := by
  cases room : recording.collector.overflowed with
  | true => rw [recording.readOn_of_overflowed source finish faults [] room]
  | false =>
    rw [recording.readOn_nil source finish faults room]
    exact recording.measures_foldl_add (Event.measures_diagnosed _)

/-- **Reading on is a turn and reading on from there.** -/
theorem readOn_cons (first : Token) (rest : List Token)
    (room : recording.collector.overflowed = false) :
    recording.readOn source finish faults (first :: rest) =
      let turn := Turn.ofTokens source finish first rest
      (recording.afterTurn faults turn).readOn source finish (Turn.events faults turn.moments).2
        turn.rest := by
  unfold readOn
  rw [Turn.all]
  simp only [Turn.allEvents, addTurns, afterTurn, room, Bool.false_eq_true, if_false]

end ReadOn

end Recording

theorem readScript_eq_readOn (source : String) (options : ScriptOptions) :
    readScript source options =
      (Recording.withLimit options.maxErrors).readOn source.toList (Input.ofSource source).finish
        (Input.ofSource source).faults (Input.ofSource source).tokens :=
  rfl

end DaxScript
