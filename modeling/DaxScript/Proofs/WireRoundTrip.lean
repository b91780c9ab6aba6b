import DaxScript.Proofs.Wire.Layout
import DaxScript.Wire.Diagnostic
import DaxScript.Wire.Measure
import DaxScript.Wire.Script

/-!
# What is handed on loses nothing

Spans, positions, diagnostics and their collectors, measures and their formats, reading options and
outline entries are written as values and read back: from what was written, from any other layout
of it, and once more after any reading that succeeded (`codecs_survive`).

Numbers have a range on the wire, 64 bits for offsets and counts and 32 bits for lines, columns and
decimal places, and what is in range is said here for each type.  Texts and lists are as long as
they are.
-/

set_option autoImplicit false

namespace DaxScript

/-! ## Numbers in range -/

structure Span.InRange (span : Span) : Prop where
  start : span.start < 2 ^ 64
  stop : span.stop < 2 ^ 64

structure Position.InRange (position : Position) : Prop where
  offset : position.offset < 2 ^ 64
  line : position.line < 2 ^ 32
  column : position.column < 2 ^ 32

structure Diagnostic.InRange (diagnostic : Diagnostic) : Prop where
  position : diagnostic.position.InRange

structure Collector.InRange (collector : Collector) : Prop where
  items : ∀ diagnostic ∈ collector.items, diagnostic.InRange
  maxErrors : collector.maxErrors < 2 ^ 64
  errorCount : collector.errorCount < 2 ^ 64

structure CalculationProperty.InRange (property : CalculationProperty) : Prop where
  accuracy : ∀ places ∈ property.accuracy, places < 2 ^ 32

structure Measure.InRange (measure : Measure) : Prop where
  property : ∀ property ∈ measure.property, property.InRange
  span : measure.span.InRange

structure ScriptOptions.InRange (options : ScriptOptions) : Prop where
  maxErrors : options.maxErrors < 2 ^ 64

structure StatementSpan.InRange (span : StatementSpan) : Prop where
  start : span.start < 2 ^ 64
  stop : span.stop < 2 ^ 64

namespace Wire

/-! ## Names -/

theorem faithful_severity : severityCodec.Faithful fun _ => True :=
  Codec.faithful_named (by intro member; cases member <;> decide)
    (by intro member other; cases member <;> cases other <;> decide)

theorem faithful_diagnosticKind : diagnosticKindCodec.Faithful fun _ => True :=
  Codec.faithful_named (by intro member; cases member <;> decide)
    (by intro member other; cases member <;> cases other <;> decide)

theorem faithful_format : formatCodec.Faithful fun _ => True :=
  Codec.faithful_named (by intro member; cases member <;> decide)
    (by intro member other; cases member <;> cases other <;> decide)

/-! ## Records

A record is read field by field, and each field is faithful. -/

theorem faithful_span : spanCodec.Faithful Span.InRange := by
  refine Codec.faithful_record (by decide) (fun _ => rfl) (fun fits each => ?_) fun read => ?_
  · match each with
    | .cons start (.cons stop .nil) =>
      simp [Codec.faithful_offset.reads fits.start start,
        Codec.faithful_offset.reads fits.stop stop]
  · split at read
    · obtain ⟨start, isStart, read⟩ := Option.bind_eq_some_iff.mp read
      obtain ⟨stop, isStop, read⟩ := Option.bind_eq_some_iff.mp read
      obtain rfl := Option.some.inj read
      exact ⟨Codec.faithful_offset.bounded isStart, Codec.faithful_offset.bounded isStop⟩
    · cases read

theorem faithful_position : positionCodec.Faithful Position.InRange := by
  refine Codec.faithful_record (by decide) (fun _ => rfl) (fun fits each => ?_) fun read => ?_
  · match each with
    | .cons offset (.cons line (.cons column .nil)) =>
      simp [Codec.faithful_offset.reads fits.offset offset,
        Codec.faithful_small.reads fits.line line, Codec.faithful_small.reads fits.column column]
  · split at read
    · obtain ⟨offset, isOffset, read⟩ := Option.bind_eq_some_iff.mp read
      obtain ⟨line, isLine, read⟩ := Option.bind_eq_some_iff.mp read
      obtain ⟨column, isColumn, read⟩ := Option.bind_eq_some_iff.mp read
      obtain rfl := Option.some.inj read
      exact ⟨Codec.faithful_offset.bounded isOffset, Codec.faithful_small.bounded isLine,
        Codec.faithful_small.bounded isColumn⟩
    · cases read

theorem faithful_diagnostic : diagnosticCodec.Faithful Diagnostic.InRange := by
  refine Codec.faithful_record (by decide) (fun _ => rfl) (fun fits each => ?_) fun read => ?_
  · match each with
    | .cons severity (.cons kind (.cons message (.cons position .nil))) =>
      simp [faithful_severity.reads trivial severity, faithful_diagnosticKind.reads trivial kind,
        Codec.faithful_text.reads trivial message, faithful_position.reads fits.position position]
  · split at read
    · obtain ⟨severity, _, read⟩ := Option.bind_eq_some_iff.mp read
      obtain ⟨kind, _, read⟩ := Option.bind_eq_some_iff.mp read
      obtain ⟨message, _, read⟩ := Option.bind_eq_some_iff.mp read
      obtain ⟨position, isPosition, read⟩ := Option.bind_eq_some_iff.mp read
      obtain rfl := Option.some.inj read
      exact ⟨faithful_position.bounded isPosition⟩
    · cases read

theorem faithful_collector : collectorCodec.Faithful Collector.InRange := by
  have faithfulItems := Codec.faithful_list faithful_diagnostic
  refine Codec.faithful_record (by decide) (fun _ => rfl) (fun fits each => ?_) fun read => ?_
  · match each with
    | .cons items (.cons maxErrors (.cons errorCount (.cons overflowed .nil))) =>
      simp [faithfulItems.reads fits.items items,
        Codec.faithful_offset.reads fits.maxErrors maxErrors,
        Codec.faithful_offset.reads fits.errorCount errorCount,
        Codec.faithful_boolean.reads trivial overflowed]
  · split at read
    · obtain ⟨items, areItems, read⟩ := Option.bind_eq_some_iff.mp read
      obtain ⟨maxErrors, isLimit, read⟩ := Option.bind_eq_some_iff.mp read
      obtain ⟨errorCount, isCount, read⟩ := Option.bind_eq_some_iff.mp read
      obtain ⟨overflowed, _, read⟩ := Option.bind_eq_some_iff.mp read
      obtain rfl := Option.some.inj read
      exact ⟨faithfulItems.bounded areItems, Codec.faithful_offset.bounded isLimit,
        Codec.faithful_offset.bounded isCount⟩
    · cases read

theorem faithful_calculationProperty :
    calculationPropertyCodec.Faithful CalculationProperty.InRange := by
  have faithfulPlaces := Codec.faithful_optional Codec.faithful_small fun _ => Value.noConfusion
  have faithfulChoice := Codec.faithful_optional Codec.faithful_boolean fun _ => Value.noConfusion
  have faithfulText := Codec.faithful_optional Codec.faithful_text fun _ => Value.noConfusion
  refine Codec.faithful_record (by decide) (fun _ => rfl) (fun fits each => ?_) fun read => ?_
  · match each with
    | .cons format (.cons calculationType (.cons accuracy
        (.cons thousandSeparator (.cons formatString .nil)))) =>
      simp [faithful_format.reads trivial format,
        Codec.faithful_text.reads trivial calculationType,
        faithfulPlaces.reads fits.accuracy accuracy,
        faithfulChoice.reads (fun _ _ => trivial) thousandSeparator,
        faithfulText.reads (fun _ _ => trivial) formatString]
  · split at read
    · obtain ⟨format, _, read⟩ := Option.bind_eq_some_iff.mp read
      obtain ⟨calculationType, _, read⟩ := Option.bind_eq_some_iff.mp read
      obtain ⟨accuracy, isAccuracy, read⟩ := Option.bind_eq_some_iff.mp read
      obtain ⟨thousandSeparator, _, read⟩ := Option.bind_eq_some_iff.mp read
      obtain ⟨formatString, _, read⟩ := Option.bind_eq_some_iff.mp read
      obtain rfl := Option.some.inj read
      exact ⟨faithfulPlaces.bounded isAccuracy⟩
    · cases read

theorem faithful_measure : measureCodec.Faithful Measure.InRange := by
  have faithfulProperty :=
    Codec.faithful_optional faithful_calculationProperty fun _ => Value.noConfusion
  refine Codec.faithful_record (by decide) (fun _ => rfl) (fun fits each => ?_) fun read => ?_
  · match each with
    | .cons tableName (.cons name (.cons expression
        (.cons fullText (.cons property (.cons span .nil))))) =>
      simp [Codec.faithful_text.reads trivial tableName, Codec.faithful_text.reads trivial name,
        Codec.faithful_text.reads trivial expression, Codec.faithful_text.reads trivial fullText,
        faithfulProperty.reads fits.property property, faithful_span.reads fits.span span]
  · split at read
    · obtain ⟨tableName, _, read⟩ := Option.bind_eq_some_iff.mp read
      obtain ⟨name, _, read⟩ := Option.bind_eq_some_iff.mp read
      obtain ⟨expression, _, read⟩ := Option.bind_eq_some_iff.mp read
      obtain ⟨fullText, _, read⟩ := Option.bind_eq_some_iff.mp read
      obtain ⟨property, isProperty, read⟩ := Option.bind_eq_some_iff.mp read
      obtain ⟨span, isSpan, read⟩ := Option.bind_eq_some_iff.mp read
      obtain rfl := Option.some.inj read
      exact ⟨faithfulProperty.bounded isProperty, faithful_span.bounded isSpan⟩
    · cases read

theorem faithful_scriptOptions : scriptOptionsCodec.Faithful ScriptOptions.InRange := by
  refine Codec.faithful_record (by decide) (fun _ => rfl) (fun fits each => ?_) fun read => ?_
  · match each with
    | .cons maxErrors .nil =>
      simp [Codec.faithful_offset.reads fits.maxErrors maxErrors]
  · split at read
    · obtain ⟨maxErrors, isLimit, read⟩ := Option.bind_eq_some_iff.mp read
      obtain rfl := Option.some.inj read
      exact ⟨Codec.faithful_offset.bounded isLimit⟩
    · cases read

theorem faithful_statementSpan : statementSpanCodec.Faithful StatementSpan.InRange := by
  have faithfulText := Codec.faithful_optional Codec.faithful_text fun _ => Value.noConfusion
  refine Codec.faithful_record (by decide) (fun _ => rfl) (fun fits each => ?_) fun read => ?_
  · match each with
    | .cons start (.cons stop (.cons label (.cons hint .nil))) =>
      simp [Codec.faithful_offset.reads fits.start start,
        Codec.faithful_offset.reads fits.stop stop,
        faithfulText.reads (fun _ _ => trivial) label, faithfulText.reads (fun _ _ => trivial) hint]
  · split at read
    · obtain ⟨start, isStart, read⟩ := Option.bind_eq_some_iff.mp read
      obtain ⟨stop, isStop, read⟩ := Option.bind_eq_some_iff.mp read
      obtain ⟨label, _, read⟩ := Option.bind_eq_some_iff.mp read
      obtain ⟨hint, _, read⟩ := Option.bind_eq_some_iff.mp read
      obtain rfl := Option.some.inj read
      exact ⟨Codec.faithful_offset.bounded isStart, Codec.faithful_offset.bounded isStop⟩
    · cases read

/-! ## All types together -/

/-- The members of a type whose numbers are in range survive being written and read. -/
structure Codec.Survives {α : Type} (codec : Codec α) (inRange : α → Prop) : Prop where
  /-- What is written is read back. -/
  readsBack : ∀ member, inRange member → codec.decode? (codec.encode member) = some member
  /-- Another order of the fields, further fields and missing fields that hold nothing make no
  difference. -/
  anyLayout : ∀ member value, inRange member → Relaid (codec.encode member) value →
    codec.decode? value = some member
  /-- Whatever value a member is read from, the member is in range and read again. -/
  settles : ∀ value member, codec.decode? value = some member →
    inRange member ∧ codec.decode? (codec.encode member) = some member

theorem Codec.Faithful.survives {α : Type} {codec : Codec α} {inRange : α → Prop}
    (faithful : codec.Faithful inRange) : codec.Survives inRange where
  readsBack _ fits := faithful.readsBack fits
  anyLayout _ _ fits relaid := faithful.reads fits relaid
  settles _ _ read := ⟨faithful.bounded read, faithful.settles read⟩

/-- **Everything that is handed on survives the wire.** -/
theorem codecs_survive :
    spanCodec.Survives Span.InRange ∧
    positionCodec.Survives Position.InRange ∧
    severityCodec.Survives (fun _ => True) ∧
    diagnosticKindCodec.Survives (fun _ => True) ∧
    diagnosticCodec.Survives Diagnostic.InRange ∧
    collectorCodec.Survives Collector.InRange ∧
    measureCodec.Survives Measure.InRange ∧
    calculationPropertyCodec.Survives CalculationProperty.InRange ∧
    formatCodec.Survives (fun _ => True) ∧
    scriptOptionsCodec.Survives ScriptOptions.InRange ∧
    statementSpanCodec.Survives StatementSpan.InRange :=
  ⟨faithful_span.survives, faithful_position.survives, faithful_severity.survives,
    faithful_diagnosticKind.survives, faithful_diagnostic.survives, faithful_collector.survives,
    faithful_measure.survives, faithful_calculationProperty.survives, faithful_format.survives,
    faithful_scriptOptions.survives, faithful_statementSpan.survives⟩

/-- A field of another kind and another order do no harm, nor does the lack of two fields. -/
example : statementSpanCodec.decode?
    (.record [("end", .integer 4), ("kind", .text "measure"), ("start", .integer 1)]) =
      some ⟨1, 4, none, none⟩ := rfl

end Wire

end DaxScript
