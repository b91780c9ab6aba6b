import DaxScript.Text.Position

/-!
# Diagnostics

What is wrong with a source is told by diagnostics: a message at a position.
-/

set_option autoImplicit false

namespace DaxScript

inductive Severity where
  | error
  | warning
  deriving DecidableEq

/-- Which part of the language a diagnostic is about. -/
inductive DiagnosticKind where
  /-- A character or a quote that forms no token. -/
  | lexical
  /-- Tokens that follow no rule of the grammar. -/
  | grammar
  /-- A statement that is recognised and refused. -/
  | unsupported
  /-- A doubtful meaning. -/
  | semantic
  deriving DecidableEq

/-- A message at a position. -/
structure Diagnostic where
  severity : Severity
  kind : DiagnosticKind
  message : String
  position : Position
  deriving DecidableEq

namespace Diagnostic

def error (kind : DiagnosticKind) (message : String) (position : Position) : Diagnostic :=
  ⟨.error, kind, message, position⟩

/-- Warnings are about meaning. -/
def warning (message : String) (position : Position) : Diagnostic :=
  ⟨.warning, .semantic, message, position⟩

def isError (diagnostic : Diagnostic) : Bool :=
  diagnostic.severity == .error

/-- The line of a report: position, colon, message. -/
def render (diagnostic : Diagnostic) : String :=
  diagnostic.position.render ++ ": " ++ diagnostic.message

end Diagnostic

end DaxScript
