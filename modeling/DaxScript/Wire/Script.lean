import DaxScript.Outline
import DaxScript.Script.Options
import DaxScript.Wire.Codec

/-!
# Reading options and outline entries on the wire
-/

set_option autoImplicit false

namespace DaxScript.Wire

def scriptOptionsCodec : Codec ScriptOptions :=
  .record ["max_errors"] (fun options => [Codec.offset.encode options.maxErrors])
    fun
      | [maxErrors] => do some { maxErrors := ← Codec.offset.decode? maxErrors }
      | _ => none

def statementSpanCodec : Codec StatementSpan :=
  .record ["start", "end", "label", "hint"]
    (fun span =>
      [Codec.offset.encode span.start,
        Codec.offset.encode span.stop,
        Codec.text.optional.encode span.label,
        Codec.text.optional.encode span.hint])
    fun
      | [start, stop, label, hint] => do
        some
          { start := ← Codec.offset.decode? start
            stop := ← Codec.offset.decode? stop
            label := ← Codec.text.optional.decode? label
            hint := ← Codec.text.optional.decode? hint }
      | _ => none

end DaxScript.Wire
