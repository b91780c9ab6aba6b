import DaxScript.Diagnostic.Collector

/-!
# Options for reading a script
-/

set_option autoImplicit false

namespace DaxScript

/-- How a script is to be read. -/
structure ScriptOptions where
  /-- How many errors are kept before the rest of the script is left unread. -/
  maxErrors : Nat := Collector.defaultMaxErrors
  deriving DecidableEq

end DaxScript
