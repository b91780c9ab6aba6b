import DaxScript.Diagnostic.Collector
import DaxScript.Script.Turn

/-!
# Recording what a script defines

The events of a script are recorded in order: diagnostics up to a limit, measures, and a log of
what was done.  A measure counts only when nothing was wrong before the end of its statement.
Once a diagnostic has been dropped the turn is finished and no other is begun.
-/

set_option autoImplicit false

namespace DaxScript

/-- How important an entry of the log is. -/
inductive LogLevel where
  | trace
  | debug
  | warn
  deriving DecidableEq

/-- An entry of the log. -/
inductive LogEntry where
  | recorded (measure : Measure)
  /-- A measure is not recorded because of an earlier error. -/
  | dropped (measure : Measure)
  | passedCreate (object : TokenKind) (position : Position)
  | passed (first : TokenKind) (position : Position)
  /-- A diagnostic has been dropped because of the limit. -/
  | limitReached (maxErrors : Nat)
  deriving DecidableEq

namespace LogEntry

def level : LogEntry → LogLevel
  | recorded _ => .trace
  | dropped _ | passedCreate _ _ | passed _ _ => .debug
  | limitReached _ => .warn

/-- The name of a measure together with its table. -/
def qualifiedName (measure : Measure) : String :=
  measure.tableName ++ "[" ++ measure.name ++ "]"

def message : LogEntry → String
  | recorded measure => "measure " ++ qualifiedName measure
  | dropped measure =>
    "dropping measure " ++ qualifiedName measure ++ " recorded after an earlier error"
  | passedCreate object position =>
    "skipping cube statement CREATE " ++ object.describe ++ " at " ++ position.render
  | passed first position =>
    "skipping unsupported statement starting with " ++ first.describe ++ " at " ++
      position.render
  | limitReached maxErrors =>
    "DAX parser reached the error limit (" ++ toString maxErrors ++ "); stopping"

end LogEntry

/-- What has been recorded of a script. -/
structure Recording where
  measures : List Measure
  collector : Collector
  log : List LogEntry
  deriving DecidableEq

namespace Recording

/-- Nothing yet, with a limit on errors. -/
def withLimit (maxErrors : Nat) : Recording :=
  ⟨[], .withLimit maxErrors, []⟩

/-- Adds an entry to the log. -/
def note (recording : Recording) (entry : LogEntry) : Recording :=
  { recording with log := recording.log ++ [entry] }

/-- Records a diagnostic.  The first one that is dropped is noted. -/
def diagnose (recording : Recording) (diagnostic : Diagnostic) : Recording :=
  let collected := { recording with collector := recording.collector.push diagnostic }
  if collected.collector.overflowed && !recording.collector.overflowed then
    collected.note (.limitReached collected.collector.maxErrors)
  else collected

/-- Records a measure, unless something was wrong before. -/
def define (recording : Recording) (measure : Measure) : Recording :=
  if recording.collector.hasErrors then recording.note (.dropped measure)
  else { recording with measures := recording.measures ++ [measure] }.note (.recorded measure)

/-- Records an event. -/
def add (recording : Recording) : Event → Recording
  | .diagnosed diagnostic => recording.diagnose diagnostic
  | .defined measure => recording.define measure
  | .passedCreate object position => recording.note (.passedCreate object position)
  | .passed first position => recording.note (.passed first position)

/-- Records the events of one turn after the other until a diagnostic has been dropped. -/
def addTurns (recording : Recording) : List (List Event) → Recording
  | [] => recording
  | events :: later =>
    if recording.collector.overflowed then recording
    else (events.foldl add recording).addTurns later

/-- Whether the script was read to its end. -/
def isComplete (recording : Recording) : Bool :=
  !recording.collector.overflowed

/-- Whether anything was wrong with the script. -/
def hasErrors (recording : Recording) : Bool :=
  recording.collector.hasErrors

/-- All diagnostics as one text. -/
def report (recording : Recording) : String :=
  recording.collector.report

end Recording

end DaxScript
