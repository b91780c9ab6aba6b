import DaxScript.Script.Options
import DaxScript.Script.Recording

/-!
# Reading scripts and expressions

`readScript` reads a whole script and tells everything about it; `readMeasures` gives the measures
of a script in which nothing is wrong; `readExpression` reads a single expression.
-/

set_option autoImplicit false

namespace DaxScript

/-- The events of a source, turn by turn. -/
def scriptEvents (source : String) : List (List Event) :=
  let input := Input.ofSource source
  Turn.allEvents input.faults (Turn.all source.toList input.finish input.tokens)

/-- Reads a script. -/
def readScript (source : String) (options : ScriptOptions) : Recording :=
  (Recording.withLimit options.maxErrors).addTurns (scriptEvents source)

/-- The diagnostics of a source that was refused as a whole. -/
structure Failure where
  collector : Collector
  deriving DecidableEq

namespace Failure

def diagnostics (failure : Failure) : List Diagnostic :=
  failure.collector.items

/-- All diagnostics as one text. -/
def report (failure : Failure) : String :=
  failure.collector.report

/-- The first diagnostic that is an error. -/
def firstError? (failure : Failure) : Option Diagnostic :=
  failure.diagnostics.find? Diagnostic.isError

end Failure

/-- The measures of a script, or what is wrong with it. -/
def readMeasures (source : String) : Except Failure (List Measure) :=
  let recording := readScript source {}
  if recording.hasErrors then .error ⟨recording.collector⟩ else .ok recording.measures

/-- Reads a single expression up to the end of the input.  An equals sign may stand in front of
it. -/
def expressionOfTokens (tokens : List Token) : Except Refusal Expr := do
  let tokens := match tokens with
    | first :: rest => if first.kind = .symbol .equal then rest else first :: rest
    | [] => []
  let parsed ← Production.expression tokens
  Production.finish parsed.rest
  .ok parsed.value

/-- The expression that a source consists of, or what is wrong with it. -/
def readExpression (source : String) : Except Failure Expr :=
  let input := Input.ofSource source
  let collector := Collector.withLimit Collector.defaultMaxErrors
  match expressionOfTokens input.tokens with
  | .ok value =>
    let collector := collector.pushAll input.faults.flatten
    if collector.hasErrors then .error ⟨collector⟩ else .ok value
  | .error refusal =>
    let seen := collector.pushAll (input.faultsBefore refusal.unseen)
    .error ⟨seen.push (refusal.diagnostic input.finish)⟩

end DaxScript
