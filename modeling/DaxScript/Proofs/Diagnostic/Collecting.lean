import DaxScript.Diagnostic.Collector

/-!
# What a collector knows about errors

Whether any error has arrived can be told from a collector at every time, kept or dropped.  Of what
arrives it keeps the first diagnostics, and once it has overflowed it does not change any more
(`Collector.exists_kept`).  The first error is always kept, so if nothing but errors arrives, then
something is kept as soon as anything has arrived (`Collector.Tallied.hasErrors_iff`).
-/

set_option autoImplicit false

namespace DaxScript.Collector

theorem hasErrors_withLimit (maxErrors : Nat) : (withLimit maxErrors).hasErrors = false := rfl

/-- An error that arrives is noticed, whether it is kept or not. -/
theorem hasErrors_push (collector : Collector) (diagnostic : Diagnostic) :
    (collector.push diagnostic).hasErrors = (collector.hasErrors || diagnostic.isError) := by
  obtain ⟨items, maxErrors, errorCount, overflowed⟩ := collector
  unfold push
  split
  · cases error : diagnostic.isError <;> simp [hasErrors]
  · next rejected =>
    cases overflowed with
    | true => simp [hasErrors]
    | false =>
      have isError : diagnostic.isError = true := by
        simp only [accepts, Bool.not_false, Bool.true_and, Bool.not_eq_true', Bool.not_eq_false,
          Bool.and_eq_true] at rejected
        exact rejected.1
      simp [hasErrors, isError]

theorem hasErrors_pushAll (collector : Collector) (diagnostics : List Diagnostic) :
    (collector.pushAll diagnostics).hasErrors =
      (collector.hasErrors || diagnostics.any Diagnostic.isError) := by
  induction diagnostics generalizing collector with
  | nil => simp [pushAll]
  | cons diagnostic diagnostics ih =>
    have later := ih (collector.push diagnostic)
    rw [hasErrors_push, Bool.or_assoc] at later
    exact later

/-- Nothing has been dropped where nothing is wrong. -/
theorem overflowed_of_right {collector : Collector} (right : collector.hasErrors = false) :
    collector.overflowed = false :=
  (Bool.or_eq_false_iff.mp right).2

theorem pushAll_append (collector : Collector) (first second : List Diagnostic) :
    collector.pushAll (first ++ second) = (collector.pushAll first).pushAll second :=
  List.foldl_append

theorem push_of_overflowed {collector : Collector} (overflowed : collector.overflowed = true)
    (diagnostic : Diagnostic) : collector.push diagnostic = collector := by
  obtain ⟨items, maxErrors, errorCount, _⟩ := collector
  cases overflowed
  rfl

/-- Once a diagnostic has been dropped all are. -/
theorem pushAll_of_overflowed {collector : Collector} (overflowed : collector.overflowed = true)
    (diagnostics : List Diagnostic) : collector.pushAll diagnostics = collector := by
  induction diagnostics with
  | nil => rfl
  | cons diagnostic diagnostics ih =>
    rw [pushAll, List.foldl_cons, push_of_overflowed overflowed]
    exact ih

/-- **Of what arrives the first diagnostics are kept**, and all unless one has been dropped. -/
theorem exists_kept (collector : Collector) (diagnostics : List Diagnostic) :
    ∃ kept, kept <+: diagnostics ∧
      (collector.pushAll diagnostics).items = collector.items ++ kept ∧
      ((collector.pushAll diagnostics).overflowed = false → kept = diagnostics) := by
  induction diagnostics generalizing collector with
  | nil => exact ⟨[], List.prefix_refl _, (List.append_nil _).symm, fun _ => rfl⟩
  | cons diagnostic diagnostics ih =>
    cases accepted : collector.accepts diagnostic with
    | true =>
      obtain ⟨kept, isPrefix, items, all⟩ := ih (collector.push diagnostic)
      refine ⟨diagnostic :: kept, List.cons_prefix_cons.mpr ⟨rfl, isPrefix⟩, ?_, fun room => ?_⟩
      · refine items.trans ?_
        rw [push, if_pos accepted]
        exact List.append_assoc _ _ _
      · rw [all room]
    | false =>
      have dropped : (collector.push diagnostic).overflowed = true := by
        rw [push, if_neg (by simp [accepted])]
      have nothing := pushAll_of_overflowed dropped diagnostics
      refine ⟨[], List.nil_prefix, ?_, fun room => ?_⟩
      · change ((collector.push diagnostic).pushAll diagnostics).items = _
        rw [nothing, push, if_neg (by simp [accepted]), List.append_nil]
      · change ((collector.push diagnostic).pushAll diagnostics).overflowed = false at room
        rw [nothing, dropped] at room
        cases room

/-- What is kept stays. -/
theorem items_prefix_pushAll (collector : Collector) (diagnostics : List Diagnostic) :
    collector.items <+: (collector.pushAll diagnostics).items := by
  obtain ⟨kept, _, items, _⟩ := collector.exists_kept diagnostics
  exact ⟨kept, items.symm⟩

/-- Nothing is kept but what arrives. -/
theorem mem_items_pushAll {collector : Collector} {diagnostics : List Diagnostic}
    {diagnostic : Diagnostic} (member : diagnostic ∈ (collector.pushAll diagnostics).items) :
    diagnostic ∈ collector.items ∨ diagnostic ∈ diagnostics := by
  obtain ⟨kept, isPrefix, items, _⟩ := collector.exists_kept diagnostics
  rw [items] at member
  exact (List.mem_append.mp member).imp_right fun new => isPrefix.subset new

/-- A collector at which nothing but errors has arrived. -/
structure Tallied (collector : Collector) : Prop where
  counted : collector.errorCount = collector.items.length
  room : 1 ≤ collector.maxErrors
  full : collector.overflowed = true → collector.items ≠ []

namespace Tallied

theorem withLimit (maxErrors : Nat) : (Collector.withLimit maxErrors).Tallied where
  counted := rfl
  room := Nat.le_max_right _ _
  full overflowed := by cases overflowed

variable {collector : Collector}

theorem push (tallied : collector.Tallied) {diagnostic : Diagnostic}
    (isError : diagnostic.isError = true) : (collector.push diagnostic).Tallied := by
  obtain ⟨counted, room, full⟩ := tallied
  unfold Collector.push
  split
  · exact ⟨by simp [counted], room, fun _ => by simp⟩
  · next rejected =>
    refine ⟨counted, room, fun _ => ?_⟩
    -- It was rejected because there was no room, so there are errors already.
    cases overflowed : collector.overflowed with
    | true => exact full overflowed
    | false =>
      have many : collector.maxErrors ≤ collector.errorCount := by
        simpa [accepts, overflowed, isError] using rejected
      have some : 0 < collector.items.length := by omega
      exact List.ne_nil_of_length_pos some

theorem pushAll (tallied : collector.Tallied) {diagnostics : List Diagnostic}
    (errors : ∀ diagnostic ∈ diagnostics, diagnostic.isError = true) :
    (collector.pushAll diagnostics).Tallied := by
  induction diagnostics generalizing collector with
  | nil => exact tallied
  | cons diagnostic diagnostics ih =>
    rw [List.forall_mem_cons] at errors
    exact ih (tallied.push errors.1) errors.2

/-- **An error has arrived exactly when one is kept.** -/
theorem hasErrors_iff (tallied : collector.Tallied) :
    collector.hasErrors = true ↔ collector.items ≠ [] := by
  unfold hasErrors
  rw [Bool.or_eq_true, decide_eq_true_iff, tallied.counted, List.length_pos_iff]
  constructor
  · rintro (some | overflowed)
    · exact some
    · exact tallied.full overflowed
  · exact .inl

theorem hasErrors_eq_false (tallied : collector.Tallied) (nothing : collector.items = []) :
    collector.hasErrors = false := by
  simpa [nothing] using tallied.hasErrors_iff

/-- Where nothing is kept in the end nothing has arrived. -/
theorem eq_nil_of_pushAll (tallied : collector.Tallied) {diagnostics : List Diagnostic}
    (errors : ∀ diagnostic ∈ diagnostics, diagnostic.isError = true)
    (nothing : (collector.pushAll diagnostics).items = []) : diagnostics = [] := by
  have right := (tallied.pushAll errors).hasErrors_eq_false nothing
  rw [hasErrors_pushAll, Bool.or_eq_false_iff, List.any_eq_false] at right
  exact List.eq_nil_iff_forall_not_mem.mpr fun diagnostic told =>
    right.2 diagnostic told (errors diagnostic told)

end Tallied

end DaxScript.Collector
