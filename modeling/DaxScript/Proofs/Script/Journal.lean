import DaxScript.Proofs.ErrorLimit

/-!
# What happens while a script is recorded

A recording shows what has been kept and what has been logged, but not which came first.  The
journal of a recording puts both in one order (`Recording.journal`): at every event at most one
thing happens, and keeping the diagnostics and the entries of a journal apart gives back what was
recorded (`Recording.foldl_add_eq_journal`).

Reading stops with the turn in which a diagnostic is dropped, so the events that are recorded are
the first ones of the script (`Recording.addTurns_eq_foldl`).
-/

set_option autoImplicit false

namespace DaxScript

/-- Something that happens while a script is recorded. -/
inductive Happening where
  /-- A diagnostic is kept. -/
  | kept (diagnostic : Diagnostic)
  /-- An entry is added to the log. -/
  | logged (entry : LogEntry)
  deriving DecidableEq

namespace Happening

def kept? : Happening → Option Diagnostic
  | kept diagnostic => some diagnostic
  | logged _ => none

def logged? : Happening → Option LogEntry
  | kept _ => none
  | logged entry => some entry

end Happening

namespace Recording

/-! ## Recorded events -/

/-- The events that are recorded: those of the turns that begin before a diagnostic has been
dropped. -/
def recorded (recording : Recording) : List (List Event) → List Event
  | [] => []
  | events :: later =>
    if recording.collector.overflowed then []
    else events ++ (events.foldl add recording).recorded later

variable (recording : Recording)

theorem addTurns_eq_foldl (turns : List (List Event)) :
    recording.addTurns turns = (recording.recorded turns).foldl add recording := by
  induction turns generalizing recording with
  | nil => rfl
  | cons events later ih =>
    rw [addTurns, recorded]
    split
    · rfl
    · rw [List.foldl_append, ih]

/-- **The events that are recorded are the first ones.** -/
theorem recorded_isFirst (turns : List (List Event)) :
    recording.recorded turns <+: turns.flatten := by
  induction turns generalizing recording with
  | nil => exact List.nil_prefix
  | cons events later ih =>
    rw [recorded]
    split
    · exact List.nil_prefix
    · exact (List.prefix_append_right_inj events).mpr (ih _)

/-! ## The journal -/

/-- What happens at an event: at most one thing. -/
def happening? : Event → Option Happening
  | .diagnosed diagnostic =>
    if recording.collector.accepts diagnostic then some (.kept diagnostic)
    else if recording.collector.overflowed then none
    else some (.logged (.limitReached recording.collector.maxErrors))
  | .defined measure =>
    some (.logged (if recording.collector.hasErrors then .dropped measure else .recorded measure))
  | .passedCreate object position => some (.logged (.passedCreate object position))
  | .passed first position => some (.logged (.passed first position))

/-- What happens at one event after the other. -/
def journal (recording : Recording) : List Event → List Happening
  | [] => []
  | event :: later => (recording.happening? event).toList ++ (recording.add event).journal later

/-- A diagnostic is kept, or it is dropped and this is noted, or one was dropped before. -/
theorem diagnose_cases (diagnostic : Diagnostic) :
    (recording.collector.accepts diagnostic = true ∧
        (recording.diagnose diagnostic).collector.items =
          recording.collector.items ++ [diagnostic] ∧
        (recording.diagnose diagnostic).collector.overflowed = false ∧
        (recording.diagnose diagnostic).log = recording.log) ∨
      recording.collector.accepts diagnostic = false ∧
        (recording.diagnose diagnostic).collector.items = recording.collector.items ∧
        (recording.diagnose diagnostic).collector.overflowed = true ∧
        (recording.diagnose diagnostic).log = recording.log ++
          if recording.collector.overflowed then [] else
            [.limitReached recording.collector.maxErrors] := by
  cases accepted : recording.collector.accepts diagnostic with
  | true =>
    have room : recording.collector.overflowed = false := by
      simpa using (Bool.and_eq_true_iff.mp accepted).1
    exact .inl ⟨rfl, by simp [diagnose, Collector.push, accepted, room]⟩
  | false =>
    refine .inr ⟨rfl, ?_⟩
    cases overflowed : recording.collector.overflowed <;>
      simp [diagnose, Collector.push, accepted, overflowed, note]

/-- **What is logged at an event**: that a diagnostic is dropped, that a measure is dropped or
recorded, or that something is passed over. -/
theorem logged_cases {event : Event} {entry : LogEntry}
    (happens : recording.happening? event = some (.logged entry)) :
    (∃ diagnostic, event = .diagnosed diagnostic ∧
        recording.collector.accepts diagnostic = false ∧
        entry = .limitReached recording.collector.maxErrors) ∨
      (∃ measure, event = .defined measure ∧ recording.collector.hasErrors = true ∧
        entry = .dropped measure) ∨
      (∃ measure, event = .defined measure ∧ recording.collector.hasErrors = false ∧
        entry = .recorded measure) ∨
      ∃ first position, entry = .passedCreate first position ∨ entry = .passed first position := by
  cases event with
  | diagnosed diagnostic =>
    simp only [happening?] at happens
    split at happens
    · cases happens
    · next dropped =>
      split at happens
      · cases happens
      · cases happens
        exact .inl ⟨diagnostic, rfl, by simpa using dropped, rfl⟩
  | defined measure =>
    simp only [happening?] at happens
    split at happens
    · next wrong =>
      cases happens
      exact .inr (.inl ⟨measure, rfl, wrong, rfl⟩)
    · next right =>
      cases happens
      exact .inr (.inr (.inl ⟨measure, rfl, by simpa using right, rfl⟩))
  | passedCreate object position =>
    cases happens
    exact .inr (.inr (.inr ⟨object, position, .inl rfl⟩))
  | passed first position =>
    cases happens
    exact .inr (.inr (.inr ⟨first, position, .inr rfl⟩))

/-- **What happens at an event is what is added to the recording.** -/
theorem add_eq_happening (event : Event) :
    (recording.add event).collector.items =
        recording.collector.items ++ (recording.happening? event).toList.filterMap (·.kept?) ∧
      (recording.add event).log =
        recording.log ++ (recording.happening? event).toList.filterMap (·.logged?) := by
  cases event with
  | diagnosed diagnostic =>
    rcases recording.diagnose_cases diagnostic with
      ⟨accepted, items, _, log⟩ | ⟨dropped, items, _, log⟩
    · simp [add, happening?, accepted, items, log, Happening.kept?, Happening.logged?]
    · cases overflowed : recording.collector.overflowed <;>
        simp [add, happening?, dropped, items, log, overflowed, Happening.kept?,
          Happening.logged?]
  | defined measure =>
    cases wrong : recording.collector.hasErrors <;>
      simp [add, define, note, happening?, wrong, Happening.kept?, Happening.logged?]
  | passedCreate =>
    simp [add, note, happening?, Happening.kept?, Happening.logged?]
  | passed =>
    simp [add, note, happening?, Happening.kept?, Happening.logged?]

/-- **The journal holds what is kept and what is logged**, each in its order. -/
theorem foldl_add_eq_journal (events : List Event) :
    (events.foldl add recording).collector.items =
        recording.collector.items ++ (recording.journal events).filterMap (·.kept?) ∧
      (events.foldl add recording).log =
        recording.log ++ (recording.journal events).filterMap (·.logged?) := by
  induction events generalizing recording with
  | nil => exact ⟨(List.append_nil _).symm, (List.append_nil _).symm⟩
  | cons event events ih =>
    obtain ⟨items, log⟩ := recording.add_eq_happening event
    obtain ⟨laterItems, laterLog⟩ := ih (recording.add event)
    rw [List.foldl_cons, journal, List.filterMap_append, List.filterMap_append,
      ← List.append_assoc, ← List.append_assoc, ← items, ← log]
    exact ⟨laterItems, laterLog⟩

/-- **Each thing in a journal happens at an event**, with the journal of the events before in front
of it and that of the events after behind it. -/
theorem exists_event_of_journal {events : List Event} {before behind : List Happening}
    {happening : Happening} (cut : recording.journal events = before ++ happening :: behind) :
    ∃ front event later, events = front ++ event :: later ∧
      recording.journal front = before ∧
      (front.foldl add recording).happening? event = some happening ∧
      ((front.foldl add recording).add event).journal later = behind := by
  induction events generalizing recording before with
  | nil => exact absurd cut.symm (by simp [journal])
  | cons event events ih =>
    rw [journal] at cut
    cases here : recording.happening? event with
    | none =>
      rw [here] at cut
      obtain ⟨front, found, later, rfl, isBefore, happens, isBehind⟩ := ih _ cut
      refine ⟨event :: front, found, later, rfl, ?_, happens, isBehind⟩
      rw [journal, here, isBefore]
      rfl
    | some first =>
      rw [here] at cut
      cases before with
      | nil =>
        obtain ⟨rfl, rfl⟩ := List.cons.inj cut
        exact ⟨[], event, events, rfl, rfl, here, rfl⟩
      | cons earlier before =>
        obtain ⟨rfl, same⟩ : first = earlier ∧
            (recording.add event).journal events = before ++ happening :: behind :=
          List.cons.inj cut
        obtain ⟨front, found, later, rfl, isBefore, happens, isBehind⟩ := ih _ same
        refine ⟨event :: front, found, later, rfl, ?_, happens, isBehind⟩
        rw [journal, here, isBefore]
        rfl

/-! ## After something has gone wrong -/

theorem hasErrors_add {event : Event} (wrong : recording.collector.hasErrors = true) :
    (recording.add event).collector.hasErrors = true := by
  rw [collector_add, Collector.hasErrors_pushAll, wrong, Bool.true_or]

/-- **Once something is wrong no measure is recorded any more.** -/
theorem recorded_not_mem_journal {events : List Event}
    (wrong : recording.collector.hasErrors = true) (measure : Measure) :
    .logged (.recorded measure) ∉ recording.journal events := by
  intro member
  obtain ⟨before, behind, cut⟩ := List.append_of_mem member
  obtain ⟨front, event, later, rfl, _, happens, _⟩ := recording.exists_event_of_journal cut
  have stillWrong : (front.foldl add recording).collector.hasErrors = true := by
    rw [collector_foldl_add, Collector.hasErrors_pushAll, wrong, Bool.true_or]
  rcases logged_cases _ happens with
    ⟨_, _, _, same⟩ | ⟨_, _, _, same⟩ | ⟨_, _, right, _⟩ | ⟨_, _, same | same⟩
  · cases same
  · cases same
  · rw [stillWrong] at right
    cases right
  · cases same
  · cases same

end Recording

end DaxScript
