import DaxScript.Measure
import DaxScript.Wire.Codec

/-!
# Measures on the wire
-/

set_option autoImplicit false

namespace DaxScript.Wire

def spanCodec : Codec Span :=
  .record ["start", "end"]
    (fun span => [Codec.offset.encode span.start, Codec.offset.encode span.stop])
    fun
      | [start, stop] => do
        some { start := ← Codec.offset.decode? start, stop := ← Codec.offset.decode? stop }
      | _ => none

def formatCodec : Codec Format :=
  .named Format.all Format.name

def calculationPropertyCodec : Codec CalculationProperty :=
  .record ["format", "calculation_type", "accuracy", "thousand_separator", "format_string"]
    (fun property =>
      [formatCodec.encode property.format,
        Codec.text.encode property.calculationType,
        Codec.small.optional.encode property.accuracy,
        Codec.boolean.optional.encode property.thousandSeparator,
        Codec.text.optional.encode property.formatString])
    fun
      | [format, calculationType, accuracy, thousandSeparator, formatString] => do
        some
          { format := ← formatCodec.decode? format
            calculationType := ← Codec.text.decode? calculationType
            accuracy := ← Codec.small.optional.decode? accuracy
            thousandSeparator := ← Codec.boolean.optional.decode? thousandSeparator
            formatString := ← Codec.text.optional.decode? formatString }
      | _ => none

def measureCodec : Codec Measure :=
  .record ["table_name", "name", "expression", "full_text", "calc_property", "span"]
    (fun measure =>
      [Codec.text.encode measure.tableName,
        Codec.text.encode measure.name,
        Codec.text.encode measure.expression,
        Codec.text.encode measure.fullText,
        calculationPropertyCodec.optional.encode measure.property,
        spanCodec.encode measure.span])
    fun
      | [tableName, name, expression, fullText, property, span] => do
        some
          { tableName := ← Codec.text.decode? tableName
            name := ← Codec.text.decode? name
            expression := ← Codec.text.decode? expression
            fullText := ← Codec.text.decode? fullText
            property := ← calculationPropertyCodec.optional.decode? property
            span := ← spanCodec.decode? span }
      | _ => none

end DaxScript.Wire
