import DaxScript.Diagnostic

/-!
# Collecting diagnostics up to a limit

A collector keeps diagnostics in the order of their arrival until it holds as many errors as it
may.  The error after that is dropped and so is everything later, warnings included: the
collector has overflowed, and stays so.
-/

set_option autoImplicit false

namespace DaxScript

/-- The diagnostics kept so far. -/
structure Collector where
  items : List Diagnostic
  /-- How many errors may be kept. -/
  maxErrors : Nat
  errorCount : Nat
  /-- Whether an error has been dropped. -/
  overflowed : Bool
  deriving DecidableEq

namespace Collector

/-- How many errors are kept where nothing else is asked for. -/
def defaultMaxErrors : Nat := 100

/-- An empty collector.  The first error is always kept, so a limit of none counts as one. -/
def withLimit (maxErrors : Nat) : Collector :=
  ⟨[], max maxErrors 1, 0, false⟩

/-- Whether the next diagnostic would be kept. -/
def accepts (collector : Collector) (diagnostic : Diagnostic) : Bool :=
  !collector.overflowed && !(diagnostic.isError && collector.maxErrors ≤ collector.errorCount)

/-- Takes one more diagnostic and keeps it if there is room. -/
def push (collector : Collector) (diagnostic : Diagnostic) : Collector :=
  if collector.accepts diagnostic then
    { collector with
      items := collector.items ++ [diagnostic]
      errorCount := collector.errorCount + if diagnostic.isError then 1 else 0 }
  else { collector with overflowed := true }

/-- Takes several diagnostics in order. -/
def pushAll (collector : Collector) (diagnostics : List Diagnostic) : Collector :=
  diagnostics.foldl push collector

/-- Whether any error has arrived, kept or not. -/
def hasErrors (collector : Collector) : Bool :=
  0 < collector.errorCount || collector.overflowed

/-- The last line of the report of a collector that has overflowed. -/
def limitNotice (collector : Collector) : String :=
  "too many errors (limit " ++ toString collector.maxErrors ++
    "); remaining diagnostics suppressed"

/-- The lines of the report: one for every diagnostic kept, and a notice if some were dropped. -/
def reportLines (collector : Collector) : List String :=
  collector.items.map Diagnostic.render ++
    if collector.overflowed then [collector.limitNotice] else []

/-- All diagnostics as one text. -/
def report (collector : Collector) : String :=
  "\n".intercalate collector.reportLines

end Collector

end DaxScript
