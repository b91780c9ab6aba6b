import DaxScript.Diagnostic.Collector
import DaxScript.Wire.Codec

/-!
# Diagnostics on the wire
-/

set_option autoImplicit false

namespace DaxScript.Wire

def positionCodec : Codec Position :=
  .record ["offset", "line", "column"]
    (fun position =>
      [Codec.offset.encode position.offset,
        Codec.small.encode position.line,
        Codec.small.encode position.column])
    fun
      | [offset, line, column] => do
        some
          { offset := ← Codec.offset.decode? offset
            line := ← Codec.small.decode? line
            column := ← Codec.small.decode? column }
      | _ => none

/-- The names of severities. -/
def severityName : Severity → String
  | .error => "error"
  | .warning => "warning"

def severityCodec : Codec Severity :=
  .named [.error, .warning] severityName

/-- The names of kinds of diagnostics. -/
def diagnosticKindName : DiagnosticKind → String
  | .lexical => "lexical"
  | .grammar => "syntax"
  | .unsupported => "unsupported"
  | .semantic => "semantic_warning"

def diagnosticKindCodec : Codec DiagnosticKind :=
  .named [.lexical, .grammar, .unsupported, .semantic] diagnosticKindName

def diagnosticCodec : Codec Diagnostic :=
  .record ["severity", "kind", "message", "position"]
    (fun diagnostic =>
      [severityCodec.encode diagnostic.severity,
        diagnosticKindCodec.encode diagnostic.kind,
        Codec.text.encode diagnostic.message,
        positionCodec.encode diagnostic.position])
    fun
      | [severity, kind, message, position] => do
        some
          { severity := ← severityCodec.decode? severity
            kind := ← diagnosticKindCodec.decode? kind
            message := ← Codec.text.decode? message
            position := ← positionCodec.decode? position }
      | _ => none

def collectorCodec : Codec Collector :=
  .record ["items", "max_errors", "error_count", "overflowed"]
    (fun collector =>
      [diagnosticCodec.list.encode collector.items,
        Codec.offset.encode collector.maxErrors,
        Codec.offset.encode collector.errorCount,
        Codec.boolean.encode collector.overflowed])
    fun
      | [items, maxErrors, errorCount, overflowed] => do
        some
          { items := ← diagnosticCodec.list.decode? items
            maxErrors := ← Codec.offset.decode? maxErrors
            errorCount := ← Codec.offset.decode? errorCount
            overflowed := ← Codec.boolean.decode? overflowed }
      | _ => none

end DaxScript.Wire
