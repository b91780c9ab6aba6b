import DaxScript.Proofs.Diagnostic.Limit
import DaxScript.Proofs.Script.Between

/-!
# A limit on errors only cuts off

What a script defines and what is wrong with it does not depend on how many errors may be kept:
the events of the script are the same under every limit, and the limit decides only how many of
them are recorded.  So reading a script with a lower limit gives the same measures and the first
of the diagnostics, and tells truly whether anything was wrong and whether something is missing
(`readScript_limit`).  A source that is refused as a whole has an error that comes first.
-/

set_option autoImplicit false

namespace DaxScript

/-! ## Measures before the first error -/

namespace Event

/-- The measures that events define before the first error, given whether there was one before. -/
def measuresBeforeError (wrong : Bool) : List Event → List Measure
  | [] => []
  | event :: later =>
    (if wrong then [] else event.measures) ++
      measuresBeforeError (wrong || event.diagnostics.any Diagnostic.isError) later

theorem measuresBeforeError_true (events : List Event) : measuresBeforeError true events = [] := by
  induction events with
  | nil => rfl
  | cons event events ih => exact ih

end Event

namespace Recording

variable (recording : Recording)

theorem measures_add (event : Event) :
    (recording.add event).measures = recording.measures ++
      if recording.collector.hasErrors then [] else event.measures := by
  have unchanged (same : (recording.add event).measures = recording.measures)
      (silent : event.measures = []) : (recording.add event).measures = recording.measures ++
        if recording.collector.hasErrors then [] else event.measures := by
    rw [silent, ite_self, List.append_nil, same]
  cases event with
  | diagnosed diagnostic => exact unchanged (recording.measures_diagnose diagnostic) rfl
  | defined measure => exact recording.measures_foldl_definitions [measure]
  | passedCreate => exact unchanged rfl rfl
  | passed => exact unchanged rfl rfl

/-- **Events add the measures that they define before the first error.** -/
theorem measures_foldl_add_eq (events : List Event) :
    (events.foldl add recording).measures =
      recording.measures ++ Event.measuresBeforeError recording.collector.hasErrors events := by
  induction events generalizing recording with
  | nil => exact (List.append_nil _).symm
  | cons event events ih =>
    rw [List.foldl_cons, ih, measures_add, collector_add, Collector.hasErrors_pushAll,
      List.append_assoc]
    rfl

/-! ## Reading to the end or to the limit -/

/-- Once a diagnostic has been dropped events change neither what is kept nor the measures. -/
theorem foldl_add_of_overflowed (overflowed : recording.collector.overflowed = true)
    (events : List Event) :
    (events.foldl add recording).collector = recording.collector ∧
      (events.foldl add recording).measures = recording.measures := by
  have wrong : recording.collector.hasErrors = true := by simp [Collector.hasErrors, overflowed]
  constructor
  · rw [collector_foldl_add, Collector.pushAll_of_overflowed overflowed]
  · rw [measures_foldl_add_eq, wrong, Event.measuresBeforeError_true, List.append_nil]

/-- **Leaving the rest of a script unread makes no difference** to what is kept of it: it is what
recording all events would keep. -/
theorem addTurns_eq (turns : List (List Event)) :
    (recording.addTurns turns).collector = (turns.flatten.foldl add recording).collector ∧
      (recording.addTurns turns).measures = (turns.flatten.foldl add recording).measures := by
  induction turns generalizing recording with
  | nil => exact ⟨rfl, rfl⟩
  | cons events turns ih =>
    rw [List.flatten_cons, addTurns]
    cases room : recording.collector.overflowed with
    | true =>
      have unchanged := recording.foldl_add_of_overflowed room (events ++ turns.flatten)
      exact ⟨unchanged.1.symm, unchanged.2.symm⟩
    | false =>
      rw [List.foldl_append]
      exact ih _

/-! ## The notice in the log -/

/-- A recording in whose log it is noted exactly if a diagnostic has been dropped. -/
def Noted : Prop :=
  .limitReached recording.collector.maxErrors ∈ recording.log ↔
    recording.collector.overflowed = true

theorem noted_withLimit (maxErrors : Nat) : (Recording.withLimit maxErrors).Noted := by
  simp [Noted, Recording.withLimit, Collector.withLimit]

variable {recording}

theorem Noted.add (noted : recording.Noted) (event : Event) : (recording.add event).Noted := by
  unfold Noted at noted ⊢
  cases event with
  | diagnosed diagnostic =>
    have limit := recording.collector.maxErrors_push diagnostic
    cases room : recording.collector.overflowed with
    | true =>
      simp only [Recording.add, diagnose, Collector.push_of_overflowed room]
      simpa [room] using noted
    | false =>
      rw [room] at noted
      cases dropped : (recording.collector.push diagnostic).overflowed <;>
        simp [Recording.add, diagnose, dropped, room, note, limit, noted]
  | defined measure =>
    simp only [Recording.add, define]
    split
    · simpa [note] using noted
    · simpa [note] using noted
  | passedCreate => simpa [Recording.add, note] using noted
  | passed => simpa [Recording.add, note] using noted

theorem Noted.addTurns (noted : recording.Noted) (turns : List (List Event)) :
    (recording.addTurns turns).Noted := by
  have through (events : List Event) {recording : Recording} (noted : recording.Noted) :
      (events.foldl Recording.add recording).Noted := by
    induction events generalizing recording with
    | nil => exact noted
    | cons event events ih => exact ih (noted.add event)
  induction turns generalizing recording with
  | nil => exact noted
  | cons events turns ih =>
    rw [Recording.addTurns]
    split
    · exact noted
    · exact ih (through events noted)

end Recording

/-! ## What is told about a source -/

/-- Everything that is wrong with a source, told without a limit. -/
def toldDiagnostics (source : String) : List Diagnostic :=
  (scriptEvents source).flatten.flatMap Event.diagnostics

theorem Turn.isError_of_mem_allEvents {source : List Char} {finish : Position}
    {faults : List (List Diagnostic)} {tokens : List Token}
    (layout : Layout finish faults tokens) :
    ∀ diagnostic ∈ (allEvents faults (all source finish tokens)).flatten.flatMap Event.diagnostics,
      diagnostic.isError = true := by
  induction tokens using Turn.byTurns source finish generalizing faults with
  | nil =>
    intro diagnostic told
    rw [all] at told
    simp only [allEvents, events, List.flatten_cons, List.flatten_nil, List.append_nil] at told
    rw [Event.diagnostics_diagnosed] at told
    exact layout.errors diagnostic ((List.take_sublist _ _).flatten.subset told)
  | turn first rest ih =>
    intro diagnostic told
    have course := course source finish first rest
    rw [all, allEvents, List.flatten_cons, List.flatMap_append, List.mem_append] at told
    rcases told with now | later
    · exact (course.diagnostics_ahead layout now).1
    · exact ih (layout.suffix (events_suffix _ _) course.rest_suffix) diagnostic later

/-- **All diagnostics of a script are errors.** -/
theorem isError_of_mem_toldDiagnostics {source : String} {diagnostic : Diagnostic}
    (told : diagnostic ∈ toldDiagnostics source) : diagnostic.isError = true :=
  Turn.isError_of_mem_allEvents (Input.layout source) diagnostic told

/-- **What a script keeps under a limit** are the first of its diagnostics. -/
theorem collector_readScript (source : String) (maxErrors : Nat) :
    (readScript source ⟨maxErrors⟩).collector =
      { items := (toldDiagnostics source).take (max maxErrors 1)
        maxErrors := max maxErrors 1
        errorCount := min (max maxErrors 1) (toldDiagnostics source).length
        overflowed := max maxErrors 1 < (toldDiagnostics source).length } := by
  rw [readScript, ((Recording.withLimit maxErrors).addTurns_eq _).1, Recording.collector_foldl_add]
  exact Collector.pushAll_withLimit maxErrors fun _ => isError_of_mem_toldDiagnostics

/-- The measures of a script under any limit. -/
theorem measures_readScript (source : String) (maxErrors : Nat) :
    (readScript source ⟨maxErrors⟩).measures =
      Event.measuresBeforeError false (scriptEvents source).flatten := by
  rw [readScript, ((Recording.withLimit maxErrors).addTurns_eq _).2,
    Recording.measures_foldl_add_eq]
  rfl

theorem hasErrors_readScript (source : String) (maxErrors : Nat) :
    (readScript source ⟨maxErrors⟩).hasErrors = !(toldDiagnostics source).isEmpty := by
  rw [Recording.hasErrors, collector_readScript, Collector.hasErrors]
  cases told : toldDiagnostics source with
  | nil => simp
  | cons first later =>
    simp only [List.length_cons, List.isEmpty_cons, Bool.not_false, Bool.or_eq_true,
      decide_eq_true_eq]
    omega

/-! ## Sources that are refused as a whole -/

/-- If something arrives and all of it is wrong, the first error is what arrives first. -/
theorem Failure.firstError?_pushAll (maxErrors : Nat) {diagnostics : List Diagnostic}
    (errors : ∀ diagnostic ∈ diagnostics, diagnostic.isError = true) :
    (Failure.mk ((Collector.withLimit maxErrors).pushAll diagnostics)).firstError? =
      diagnostics.head? := by
  rw [firstError?, Failure.diagnostics, Collector.pushAll_withLimit maxErrors errors]
  cases diagnostics with
  | nil => simp
  | cons first later =>
    have isError := errors first (.head _)
    obtain ⟨limit, same⟩ : ∃ limit, max maxErrors 1 = limit + 1 := ⟨max maxErrors 1 - 1, by omega⟩
    simp [same, isError]

/-- A source of whose script no measures are given has a first error. -/
theorem firstError?_of_readMeasures {source : String} {failure : Failure}
    (refused : readMeasures source = .error failure) :
    ∃ diagnostic, failure.firstError? = some diagnostic := by
  simp only [readMeasures] at refused
  split at refused
  · next wrong =>
    obtain rfl := Except.error.inj refused
    rw [hasErrors_readScript] at wrong
    obtain ⟨first, later, told⟩ : ∃ first later, toldDiagnostics source = first :: later :=
      List.exists_cons_of_ne_nil (by simpa using wrong)
    have errors : ∀ diagnostic ∈ toldDiagnostics source, diagnostic.isError = true :=
      fun _ => isError_of_mem_toldDiagnostics
    have kept := Failure.firstError?_pushAll Collector.defaultMaxErrors errors
    rw [told] at kept
    refine ⟨first, Eq.trans ?_ kept⟩
    rw [← told, Collector.pushAll_withLimit _ fun _ => isError_of_mem_toldDiagnostics,
      ← collector_readScript]
  · cases refused

/-- A source that is refused as an expression has a first error. -/
theorem firstError?_of_readExpression {source : String} {failure : Failure}
    (refused : readExpression source = .error failure) :
    ∃ diagnostic, failure.firstError? = some diagnostic := by
  have layout := Input.layout source
  have first {diagnostics : List Diagnostic} (told : diagnostics ≠ [])
      (errors : ∀ diagnostic ∈ diagnostics, diagnostic.isError = true) :
      ∃ diagnostic, (Failure.mk ((Collector.withLimit Collector.defaultMaxErrors).pushAll
        diagnostics)).firstError? = some diagnostic := by
    obtain ⟨first, later, rfl⟩ := List.exists_cons_of_ne_nil told
    exact ⟨first, Failure.firstError?_pushAll _ errors⟩
  simp only [readExpression] at refused
  split at refused
  · split at refused
    · next wrong =>
      obtain rfl := Except.error.inj refused
      refine first (fun nothing => ?_) layout.errors
      rw [nothing] at wrong
      cases wrong
    · cases refused
  · next refusal _ =>
    obtain rfl := Except.error.inj refused
    have together := Collector.pushAll_append (.withLimit Collector.defaultMaxErrors)
      ((Input.ofSource source).faultsBefore refusal.unseen)
      [refusal.diagnostic (Input.ofSource source).finish]
    change _ = Collector.push _ _ at together
    rw [← together]
    refine first (by simp) fun diagnostic member => ?_
    rcases List.mem_append.mp member with before | last
    · exact layout.errors diagnostic ((List.take_sublist _ _).flatten.subset before)
    · obtain rfl := List.mem_singleton.mp last
      rfl

/-! ## Two limits -/

/-- How reading a script with a limit on errors compares with reading it with a higher one. -/
structure CutOff (source : String) (lower upper : Nat) : Prop where
  measures : (readScript source ⟨lower⟩).measures = (readScript source ⟨upper⟩).measures
  /-- The first of the diagnostics are kept, and all of them if there are not so many. -/
  diagnostics : (readScript source ⟨lower⟩).collector.items =
    (readScript source ⟨upper⟩).collector.items.take (max lower 1)
  hasErrors : (readScript source ⟨lower⟩).hasErrors = (readScript source ⟨upper⟩).hasErrors
  /-- A script is left unread exactly if a diagnostic is dropped. -/
  incomplete : (readScript source ⟨lower⟩).isComplete = false ↔
    (readScript source ⟨lower⟩).collector.overflowed = true
  /-- That is noted in the log. -/
  noted : .limitReached (max lower 1) ∈ (readScript source ⟨lower⟩).log ↔
    (readScript source ⟨lower⟩).collector.overflowed = true
  /-- It happens exactly if more is told without a limit than may be kept. -/
  overflowed : (readScript source ⟨lower⟩).collector.overflowed = true ↔
    max lower 1 < (toldDiagnostics source).length
  /-- A limit that is high enough is none. -/
  unlimited : (toldDiagnostics source).length ≤ max lower 1 →
    (readScript source ⟨lower⟩).collector.items = toldDiagnostics source

/-- **A limit on errors only cuts off**, and whatever is refused has a first error. -/
theorem readScript_limit (source : String) {lower upper : Nat} (ordered : lower ≤ upper) :
    CutOff source lower upper ∧
      ∀ failure : Failure,
        readMeasures source = .error failure ∨ readExpression source = .error failure →
          ∃ diagnostic, failure.firstError? = some diagnostic := by
  have higher : max lower 1 ≤ max upper 1 := by omega
  refine ⟨?_, fun failure refused => refused.elim firstError?_of_readMeasures
    firstError?_of_readExpression⟩
  constructor
  case measures => rw [measures_readScript, measures_readScript]
  case diagnostics =>
    rw [collector_readScript, collector_readScript, List.take_take, Nat.min_eq_left higher]
  case hasErrors => rw [hasErrors_readScript, hasErrors_readScript]
  case incomplete => rw [Recording.isComplete, Bool.not_eq_false']
  case noted =>
    have noted := (Recording.noted_withLimit lower).addTurns (scriptEvents source)
    have limit : (readScript source ⟨lower⟩).collector.maxErrors = max lower 1 := by
      rw [collector_readScript]
    rw [← limit]
    exact noted
  case overflowed => rw [collector_readScript, decide_eq_true_iff]
  case unlimited =>
    intro few
    rw [collector_readScript]
    exact List.take_of_length_le few

/-- Of three blocks without definitions behind a measure, a limit of two tells of two and a limit
of none tells of one. -/
theorem readScript_limit_blocks :
    let source := "CREATE MEASURE t[a] = (b); DEFINE; DEFINE; DEFINE"
    0 ≤ 2 ∧ (toldDiagnostics source).length = 3 ∧ (readScript source ⟨2⟩).measures.length = 1 ∧
      (CutOff source 0 2 ∧ ∀ failure : Failure,
        readMeasures source = .error failure ∨ readExpression source = .error failure →
          ∃ diagnostic, failure.firstError? = some diagnostic) := by
  have ordered : 0 ≤ 2 := by decide
  have told : (toldDiagnostics "CREATE MEASURE t[a] = (b); DEFINE; DEFINE; DEFINE").length = 3 := by
    decide +kernel
  have defined : (readScript "CREATE MEASURE t[a] = (b); DEFINE; DEFINE; DEFINE"
      ⟨2⟩).measures.length = 1 := by decide +kernel
  exact ⟨ordered, told, defined, readScript_limit _ ordered⟩

end DaxScript
