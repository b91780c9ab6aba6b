import DaxScript.Proofs.Script.Journal

/-!
# The log tells what has happened

While a script is read a log is kept of it.  The measures that the log calls recorded are those of
the script, in their order; that the limit has been reached is noted once if the script is left
unread, and never otherwise; and nothing is recorded behind such a note, nor behind a measure that
is dropped, which comes behind the first diagnostic in any case (`log_faithful`).

The log alone does not show when a diagnostic was kept.  So the order is that of the journal, of
which the log and the diagnostics are two parts.
-/

set_option autoImplicit false

namespace DaxScript

namespace Recording

/-- An entry of another level does not count. -/
theorem filter_log_note (recording : Recording) {entry : LogEntry} {level : LogLevel}
    (other : entry.level ≠ level) :
    (recording.note entry).log.filter (·.level = level) =
      recording.log.filter (·.level = level) := by
  simp [note, other]

/-- A log that calls those measures recorded that are, and notes that a diagnostic has been dropped
exactly if one has. -/
structure LogAgrees (recording : Recording) : Prop where
  recorded : recording.log.filter (·.level = .trace) = recording.measures.map .recorded
  limit : recording.log.filter (·.level = .warn) =
    if recording.collector.overflowed then [.limitReached recording.collector.maxErrors] else []

theorem LogAgrees.withLimit (maxErrors : Nat) : (Recording.withLimit maxErrors).LogAgrees :=
  ⟨rfl, rfl⟩

namespace LogAgrees

variable {recording : Recording} (agrees : recording.LogAgrees)
include agrees

theorem note {entry : LogEntry} (silent : entry.level = .debug) :
    (recording.note entry).LogAgrees where
  recorded := (recording.filter_log_note (by simp [silent])).trans agrees.recorded
  limit := (recording.filter_log_note (by simp [silent])).trans agrees.limit

theorem define (measure : Measure) : (recording.define measure).LogAgrees := by
  unfold Recording.define
  split
  · exact agrees.note rfl
  · have told : (LogEntry.recorded measure).level = .trace := rfl
    refine ⟨?_, (filter_log_note _ (by simp [told])).trans agrees.limit⟩
    simp [Recording.note, told, agrees.recorded]

/-- The first diagnostic that is dropped is noted. -/
theorem diagnose (diagnostic : Diagnostic) : (recording.diagnose diagnostic).LogAgrees where
  recorded := by
    rw [measures_diagnose]
    rcases recording.diagnose_cases diagnostic with ⟨_, _, _, log⟩ | ⟨_, _, _, log⟩
    · rw [log, agrees.recorded]
    · rw [log, List.filter_append, agrees.recorded]
      cases recording.collector.overflowed <;> simp [LogEntry.level]
  limit := by
    have sameLimit : (recording.diagnose diagnostic).collector.maxErrors =
        recording.collector.maxErrors := by
      rw [collector_diagnose, Collector.maxErrors_push]
    rw [sameLimit]
    rcases recording.diagnose_cases diagnostic with
      ⟨accepted, _, room, log⟩ | ⟨_, _, overflowed, log⟩
    · have roomBefore : recording.collector.overflowed = false := by
        simpa using (Bool.and_eq_true_iff.mp accepted).1
      rw [log, room, agrees.limit, roomBefore]
    · rw [log, overflowed, List.filter_append, agrees.limit]
      cases recording.collector.overflowed <;> simp [LogEntry.level]

/-- **What is recorded at an event is told in the log.** -/
theorem add (event : Event) : (recording.add event).LogAgrees := by
  cases event with
  | diagnosed diagnostic => exact agrees.diagnose diagnostic
  | defined measure => exact agrees.define measure
  | passedCreate => exact agrees.note rfl
  | passed => exact agrees.note rfl

theorem foldl_add (events : List Event) : (events.foldl Recording.add recording).LogAgrees := by
  induction events generalizing recording with
  | nil => exact agrees
  | cons event events ih => exact ih (agrees.add event)

end LogAgrees

end Recording

/-! ## The journal of a script -/

/-- What happens while a script is read. -/
def scriptJournal (source : String) (options : ScriptOptions) : List Happening :=
  let start := Recording.withLimit options.maxErrors
  start.journal (start.recorded (scriptEvents source))

/-- A happening behind which no measure is recorded: a diagnostic or a measure is dropped. -/
def LogEntry.endsRecording : LogEntry → Bool
  | limitReached _ | dropped _ => true
  | _ => false

namespace Recording

variable {recording : Recording}

/-- At an event at which something is dropped, something is wrong. -/
theorem hasErrors_of_endsRecording {event : Event} {entry : LogEntry}
    (happens : recording.happening? event = some (.logged entry))
    (ends : entry.endsRecording = true) : (recording.add event).collector.hasErrors = true := by
  rcases recording.logged_cases happens with
    ⟨diagnostic, rfl, dropped, _⟩ | ⟨_, _, wrong, _⟩ | ⟨_, _, _, rfl⟩ | ⟨_, _, rfl | rfl⟩
  · rcases recording.diagnose_cases diagnostic with ⟨accepted, _⟩ | ⟨_, _, overflowed, _⟩
    · rw [dropped] at accepted
      cases accepted
    · simp [Recording.add, Collector.hasErrors, overflowed]
  · exact recording.hasErrors_add wrong
  · cases ends
  · cases ends
  · cases ends

/-- A measure is dropped only where something is wrong. -/
theorem hasErrors_of_dropped {event : Event} {measure : Measure}
    (happens : recording.happening? event = some (.logged (.dropped measure))) :
    recording.collector.hasErrors = true := by
  rcases recording.logged_cases happens with
    ⟨_, _, _, same⟩ | ⟨_, _, wrong, _⟩ | ⟨_, _, _, same⟩ | ⟨_, _, same | same⟩
  · cases same
  · exact wrong
  · cases same
  · cases same
  · cases same

end Recording

section Script

variable {source : String} {options : ScriptOptions} {before behind : List Happening}
  {entry : LogEntry} (cut : scriptJournal source options = before ++ .logged entry :: behind)
include cut

/-- **Nothing is recorded behind what is dropped.** -/
theorem recorded_not_mem_behind (ends : entry.endsRecording = true) (measure : Measure) :
    .logged (.recorded measure) ∉ behind := by
  obtain ⟨front, event, later, _, _, happens, rfl⟩ := Recording.exists_event_of_journal _ cut
  exact Recording.recorded_not_mem_journal _ (Recording.hasErrors_of_endsRecording happens ends)
    measure

/-- **A measure is dropped behind a diagnostic that is kept.** -/
theorem exists_kept_before {measure : Measure} (isDropped : entry = .dropped measure) :
    ∃ diagnostic, .kept diagnostic ∈ before := by
  subst isDropped
  obtain ⟨front, event, later, events, rfl, happens, _⟩ := Recording.exists_event_of_journal _ cut
  let start := Recording.withLimit options.maxErrors
  -- All that has arrived are errors, so one of them is kept if any has arrived.
  have errors : ∀ diagnostic ∈ front.flatMap Event.diagnostics, diagnostic.isError = true := by
    intro diagnostic member
    have first : front <+: (scriptEvents source).flatten :=
      (List.prefix_append front _).trans (events ▸ start.recorded_isFirst (scriptEvents source))
    obtain ⟨told, isFirst, own⟩ := List.mem_flatMap.mp member
    exact isError_of_mem_toldDiagnostics
      (List.mem_flatMap.mpr ⟨told, first.subset isFirst, own⟩)
  have tallied : (front.foldl Recording.add start).collector.Tallied := by
    rw [Recording.collector_foldl_add]
    exact (Collector.Tallied.withLimit options.maxErrors).pushAll errors
  have kept := tallied.hasErrors_iff.mp (Recording.hasErrors_of_dropped happens)
  rw [(start.foldl_add_eq_journal front).1] at kept
  obtain ⟨diagnostic, member⟩ := List.exists_mem_of_ne_nil _ kept
  obtain ⟨happening, inFront, isKept⟩ := List.mem_filterMap.mp (show diagnostic ∈
    (start.journal front).filterMap (·.kept?) from member)
  cases happening with
  | kept => exact ⟨_, inFront⟩
  | logged => cases isKept

end Script

/-- What the log of a script tells. -/
structure LogTells (options : ScriptOptions) (recording : Recording) (journal : List Happening) :
    Prop where
  /-- The journal is made up of the diagnostics that are kept and of the log. -/
  diagnostics : journal.filterMap (·.kept?) = recording.collector.items
  log : journal.filterMap (·.logged?) = recording.log
  /-- The measures of the script are told in order. -/
  recorded : (recording.log.filter (·.level = .trace)).map LogEntry.message =
    recording.measures.map fun measure =>
      "measure " ++ (measure.tableName ++ "[" ++ measure.name ++ "]")
  /-- Whether the script is left unread is told once. -/
  limit : recording.log.filter (·.level = .warn) =
    if recording.isComplete then [] else [.limitReached (max options.maxErrors 1)]
  /-- No measure is recorded behind that. -/
  behindLimit : ∀ before entry behind, journal = before ++ .logged entry :: behind →
    entry.level = .warn → ∀ later, .logged later ∈ behind → later.level ≠ .trace
  /-- A measure is dropped behind a diagnostic, and none is recorded behind it. -/
  dropped : ∀ before measure behind, journal = before ++ .logged (.dropped measure) :: behind →
    (∃ diagnostic, .kept diagnostic ∈ before) ∧
      ∀ later, .logged later ∈ behind → later.level ≠ .trace

/-- **The log of a script tells what has happened**, under every limit. -/
theorem log_faithful (source : String) (options : ScriptOptions) :
    LogTells options (readScript source options) (scriptJournal source options) := by
  let start := Recording.withLimit options.maxErrors
  have read : readScript source options =
      (start.recorded (scriptEvents source)).foldl Recording.add start :=
    start.addTurns_eq_foldl (scriptEvents source)
  have whole := start.foldl_add_eq_journal (start.recorded (scriptEvents source))
  rw [← read] at whole
  have agrees : (readScript source options).LogAgrees := by
    rw [read]
    exact (Recording.LogAgrees.withLimit options.maxErrors).foldl_add _
  -- Nothing but a measure that is recorded is told at the level of traces.
  have traces {behind : List Happening}
      (none : ∀ measure, .logged (.recorded measure) ∉ behind) :
      ∀ later, .logged later ∈ behind → later.level ≠ .trace := by
    intro later member
    cases later with
    | recorded measure => exact absurd member (none measure)
    | _ => exact fun other => nomatch other
  constructor
  case diagnostics => exact whole.1.symm
  case log => exact whole.2.symm
  case recorded =>
    rw [agrees.recorded, List.map_map]
    rfl
  case limit =>
    have limit : (readScript source options).collector.maxErrors = max options.maxErrors 1 := by
      rw [collector_readScript]
    rw [agrees.limit, limit, Recording.isComplete]
    cases (readScript source options).collector.overflowed <;> rfl
  case behindLimit =>
    intro before entry behind cut warns
    have ends : entry.endsRecording = true := by
      cases entry <;> first | rfl | cases warns
    exact traces (recorded_not_mem_behind cut ends)
  case dropped =>
    intro before measure behind cut
    exact ⟨exists_kept_before cut rfl, traces (recorded_not_mem_behind cut rfl)⟩

/-- With a limit of one: a measure is recorded, a diagnostic is kept, a measure is dropped, and the
limit is reached. -/
theorem log_faithful_at_limit :
    (scriptJournal "CREATE MEASURE t[a] = 1; DEFINE; CREATE MEASURE t[b] = 2; DEFINE" ⟨1⟩).map
        (·.logged?.map LogEntry.level) = [some .trace, none, some .debug, some .warn] ∧
      LogTells ⟨1⟩
        (readScript "CREATE MEASURE t[a] = 1; DEFINE; CREATE MEASURE t[b] = 2; DEFINE" ⟨1⟩)
        (scriptJournal "CREATE MEASURE t[a] = 1; DEFINE; CREATE MEASURE t[b] = 2; DEFINE" ⟨1⟩) :=
  ⟨by decide +kernel, log_faithful _ ⟨1⟩⟩

end DaxScript
