import DaxScript.Proofs.Diagnostic.Collecting

/-!
# What a limit on errors keeps

Of what arrives a collector keeps everything as long as there is room for the errors
(`pushAll_of_room`), and otherwise everything in front of the first error too many
(`pushAll_of_full`).  Warnings take no room, but behind that error they are dropped as well.

Where nothing but errors arrives, these are the first ones up to the limit (`pushAll_withLimit`).
-/

set_option autoImplicit false

namespace DaxScript

/-- Among diagnostics with many errors there is one behind a given number of errors. -/
theorem Diagnostic.exists_error_of_lt_countP {room : Nat} {diagnostics : List Diagnostic}
    (many : room < diagnostics.countP isError) :
    ∃ before error behind, diagnostics = before ++ error :: behind ∧ error.isError = true ∧
      before.countP isError = room := by
  induction diagnostics generalizing room with
  | nil => cases many
  | cons first later ih =>
    cases isError : first.isError with
    | false =>
      rw [List.countP_cons_of_neg (by simp [isError])] at many
      obtain ⟨before, error, behind, rfl, found, count⟩ := ih many
      refine ⟨first :: before, error, behind, rfl, found, ?_⟩
      rw [List.countP_cons_of_neg (by simp [isError]), count]
    | true =>
      rw [List.countP_cons_of_pos isError] at many
      cases room with
      | zero => exact ⟨[], first, later, rfl, isError, rfl⟩
      | succ room =>
        obtain ⟨before, error, behind, rfl, found, count⟩ := ih (Nat.lt_of_succ_lt_succ many)
        refine ⟨first :: before, error, behind, rfl, found, ?_⟩
        rw [List.countP_cons_of_pos isError, count]

namespace Collector

variable {collector : Collector} {arrived : List Diagnostic}

theorem maxErrors_push (collector : Collector) (diagnostic : Diagnostic) :
    (collector.push diagnostic).maxErrors = collector.maxErrors := by
  unfold push
  split
  · rfl
  · rfl

/-- **As long as there is room for the errors everything is kept.** -/
theorem pushAll_of_room (dropsNothing : collector.overflowed = false)
    (room : collector.errorCount + arrived.countP Diagnostic.isError ≤ collector.maxErrors) :
    collector.pushAll arrived =
      { items := collector.items ++ arrived
        maxErrors := collector.maxErrors
        errorCount := collector.errorCount + arrived.countP Diagnostic.isError
        overflowed := false } := by
  induction arrived generalizing collector with
  | nil => simp [pushAll, ← dropsNothing]
  | cons diagnostic later ih =>
    rw [List.countP_cons] at room
    have accepted : collector.accepts diagnostic = true := by
      cases isError : diagnostic.isError with
      | false => simp [accepts, dropsNothing, isError]
      | true =>
        rw [if_pos isError] at room
        have fits : ¬collector.maxErrors ≤ collector.errorCount := by omega
        simp [accepts, dropsNothing, fits]
    have pushed : collector.push diagnostic =
        { collector with
          items := collector.items ++ [diagnostic]
          errorCount := collector.errorCount + if diagnostic.isError then 1 else 0 } :=
      if_pos accepted
    have step : collector.pushAll (diagnostic :: later) =
        (collector.push diagnostic).pushAll later := rfl
    have after := @ih (collector.push diagnostic)
    rw [pushed] at after
    rw [step, pushed, after dropsNothing (by simp only; omega), List.countP_cons]
    simp only [List.append_assoc, List.singleton_append, mk.injEq, true_and, and_true]
    omega

/-- **The first error too many is dropped**, and everything behind it. -/
theorem pushAll_of_full {error : Diagnostic} (dropsNothing : collector.overflowed = false)
    (isError : error.isError = true)
    (full : collector.errorCount + arrived.countP Diagnostic.isError = collector.maxErrors)
    (behind : List Diagnostic) :
    collector.pushAll (arrived ++ error :: behind) =
      { items := collector.items ++ arrived
        maxErrors := collector.maxErrors
        errorCount := collector.maxErrors
        overflowed := true } := by
  have before := pushAll_of_room dropsNothing (Nat.le_of_eq full)
  have dropped : (collector.pushAll arrived).push error =
      { collector.pushAll arrived with overflowed := true } := by
    rw [before, push, if_neg (by simp [accepts, isError, full])]
  have step : collector.pushAll (arrived ++ error :: behind) =
      ((collector.pushAll arrived).push error).pushAll behind := pushAll_append _ _ _
  rw [step, pushAll_of_overflowed (by rw [dropped]), dropped, before, full]

/-- **Of errors the first ones are kept, up to the limit.** -/
theorem pushAll_withLimit (maxErrors : Nat) {diagnostics : List Diagnostic}
    (errors : ∀ diagnostic ∈ diagnostics, diagnostic.isError = true) :
    (withLimit maxErrors).pushAll diagnostics =
      { items := diagnostics.take (max maxErrors 1)
        maxErrors := max maxErrors 1
        errorCount := min (max maxErrors 1) diagnostics.length
        overflowed := max maxErrors 1 < diagnostics.length } := by
  have counted : diagnostics.countP Diagnostic.isError = diagnostics.length :=
    List.countP_eq_length.mpr errors
  have starts : (withLimit maxErrors).errorCount + diagnostics.countP Diagnostic.isError =
      diagnostics.length := (Nat.zero_add _).trans counted
  rcases Nat.lt_or_ge (max maxErrors 1) diagnostics.length with many | few
  · obtain ⟨before, error, behind, rfl, isError, count⟩ :=
      Diagnostic.exists_error_of_lt_countP (Nat.lt_of_lt_of_eq many counted.symm)
    have length : before.length = max maxErrors 1 := by
      rw [← count, List.countP_eq_length.mpr fun diagnostic member =>
        errors diagnostic (List.mem_append_left _ member)]
    have full := @pushAll_of_full (withLimit maxErrors) before error rfl isError
      ((Nat.zero_add _).trans count) behind
    rw [full, ← length, List.take_left, Nat.min_eq_left (by simp)]
    simp [withLimit, length]
  · have fits := @pushAll_of_room (withLimit maxErrors) diagnostics rfl
      (Nat.le_trans (Nat.le_of_eq starts) few)
    rw [fits, starts, List.take_of_length_le few, Nat.min_eq_right few]
    simp [withLimit, Nat.not_lt.mpr few]

end Collector

end DaxScript
