import DaxScript.Proofs.Diagnostic.Limit

/-!
# A collector keeps what comes before the first error too many

Errors and warnings arrive at a collector in any order.  Everything in front of the first error
beyond the limit is kept, in its order, and nothing from that error on, not even a warning
(`collector_keepsPrefix`).  Whether a diagnostic is kept is decided when it arrives, and what the
collector tells about itself can be read off the errors that have arrived: how many there were up to
the limit, whether there were more, and whether there were any at all.

The limit is never less than one, so the first error is kept in any case.
-/

set_option autoImplicit false

namespace DaxScript

namespace Collector

/-- What a collector with a limit holds and tells once some diagnostics have arrived. -/
structure Keeps (collector : Collector) (limit : Nat) (arrived : List Diagnostic) : Prop where
  /-- Without an error too many everything is kept. -/
  all : arrived.countP Diagnostic.isError ≤ limit → collector.items = arrived
  /-- Otherwise it is what comes before the first one. -/
  front : ∀ {before error behind}, arrived = before ++ error :: behind → error.isError = true →
    before.countP Diagnostic.isError = limit → collector.items = before
  errorCount : collector.errorCount = min limit (arrived.countP Diagnostic.isError)
  overflowed : collector.overflowed = true ↔ limit + 1 ≤ arrived.countP Diagnostic.isError
  hasErrors : collector.hasErrors = true ↔ ∃ diagnostic ∈ arrived, diagnostic.isError = true
  /-- There is a line for each diagnostic that is kept, and one more if some are not. -/
  report : collector.report = "\n".intercalate
    (collector.items.map (fun diagnostic => toString diagnostic.position.line ++ ":" ++
        toString diagnostic.position.column ++ ": " ++ diagnostic.message) ++
      if limit + 1 ≤ arrived.countP Diagnostic.isError then
        ["too many errors (limit " ++ toString limit ++ "); remaining diagnostics suppressed"]
      else [])

/-- What a collector keeps and counts determines what it tells. -/
theorem Keeps.of_state {limit : Nat} {arrived items : List Diagnostic} {errorCount : Nat}
    {overflowed : Bool}
    (all : arrived.countP Diagnostic.isError ≤ limit → items = arrived)
    (front : ∀ {before error behind}, arrived = before ++ error :: behind → error.isError = true →
      before.countP Diagnostic.isError = limit → items = before)
    (counted : errorCount = min limit (arrived.countP Diagnostic.isError))
    (dropped : overflowed = decide (limit + 1 ≤ arrived.countP Diagnostic.isError))
    (some : 1 ≤ limit) : Keeps ⟨items, limit, errorCount, overflowed⟩ limit arrived where
  all := all
  front := front
  errorCount := counted
  overflowed := by simp [dropped]
  hasErrors := by
    have any : (∃ diagnostic ∈ arrived, diagnostic.isError = true) ↔
        0 < arrived.countP Diagnostic.isError := List.countP_pos_iff.symm
    rw [any]
    simp only [Collector.hasErrors, counted, dropped, Bool.or_eq_true, decide_eq_true_eq]
    omega
  report := by
    rw [Collector.report, reportLines, dropped]
    by_cases many : limit + 1 ≤ arrived.countP Diagnostic.isError
    · simp only [many, decide_true, if_true]
      rfl
    · simp only [many, decide_false, if_false]
      rfl

/-- **A collector keeps what comes before the first error too many.** -/
theorem keeps_withLimit (maxErrors : Nat) (arrived : List Diagnostic) :
    ((withLimit maxErrors).pushAll arrived).Keeps (max maxErrors 1) arrived := by
  have some : 1 ≤ max maxErrors 1 := Nat.le_max_right _ _
  have cut {before behind : List Diagnostic} {error : Diagnostic}
      (split : arrived = before ++ error :: behind) (isError : error.isError = true)
      (full : before.countP Diagnostic.isError = max maxErrors 1) :
      (withLimit maxErrors).pushAll arrived = ⟨before, max maxErrors 1, max maxErrors 1, true⟩ ∧
        max maxErrors 1 + 1 ≤ arrived.countP Diagnostic.isError := by
    constructor
    · rw [split]
      exact @pushAll_of_full (withLimit maxErrors) before error rfl isError
        ((Nat.zero_add _).trans full) behind
    · rw [split, List.countP_append, List.countP_cons_of_pos isError, full]
      omega
  rcases Nat.lt_or_ge (max maxErrors 1) (arrived.countP Diagnostic.isError) with many | few
  · obtain ⟨before, error, behind, split, isError, full⟩ :=
      Diagnostic.exists_error_of_lt_countP many
    obtain ⟨state, _⟩ := cut split isError full
    rw [state]
    refine .of_state (fun few => absurd many (Nat.not_lt.mpr few)) ?_ ?_ ?_ some
    · intro other _ _ split' isError' full'
      have same := (cut split' isError' full').1
      rw [state] at same
      exact congrArg items same
    · rw [Nat.min_eq_left (Nat.le_of_lt many)]
    · exact (decide_eq_true many).symm
  · have state := @pushAll_of_room (withLimit maxErrors) arrived rfl
      (Nat.le_trans (Nat.le_of_eq (Nat.zero_add _)) few)
    have noMore : ¬max maxErrors 1 + 1 ≤ arrived.countP Diagnostic.isError := Nat.not_lt.mpr few
    rw [state]
    refine .of_state (fun _ => List.nil_append _) ?_ ?_ ?_ some
    · intro before error behind split isError full
      exact absurd (cut split isError full).2 noMore
    · exact (Nat.zero_add _).trans (Nat.min_eq_right few).symm
    · exact (decide_eq_false noMore).symm

/-- A diagnostic is accepted when it arrives exactly if it is kept in the end. -/
theorem accepts_iff (maxErrors : Nat) (before behind : List Diagnostic) (diagnostic : Diagnostic) :
    ((withLimit maxErrors).pushAll before).accepts diagnostic = true ↔
      before.length <
        ((withLimit maxErrors).pushAll (before ++ diagnostic :: behind)).items.length := by
  have step : (withLimit maxErrors).pushAll (before ++ diagnostic :: behind) =
      (((withLimit maxErrors).pushAll before).push diagnostic).pushAll behind :=
    pushAll_append _ _ _
  obtain ⟨kept, isPrefix, items, whole⟩ := (withLimit maxErrors).exists_kept before
  change ((withLimit maxErrors).pushAll before).items = kept at items
  rw [step]
  cases accepted : ((withLimit maxErrors).pushAll before).accepts diagnostic with
  | true =>
    have room : ((withLimit maxErrors).pushAll before).overflowed = false := by
      simpa using (Bool.and_eq_true_iff.mp accepted).1
    have grown : (((withLimit maxErrors).pushAll before).push diagnostic).items =
        before ++ [diagnostic] := by
      rw [push, if_pos accepted, items, whole room]
    have stays := (items_prefix_pushAll
      (((withLimit maxErrors).pushAll before).push diagnostic) behind).length_le
    rw [grown, List.length_append, List.length_singleton] at stays
    exact iff_of_true rfl stays
  | false =>
    have dropped : ((withLimit maxErrors).pushAll before).push diagnostic =
        { (withLimit maxErrors).pushAll before with overflowed := true } := by
      rw [push, if_neg (by simp [accepted])]
    rw [pushAll_of_overflowed (by rw [dropped]), dropped, items]
    exact iff_of_false Bool.false_ne_true (Nat.not_lt.mpr isPrefix.length_le)

end Collector

/-- **A collector keeps exactly the right prefix**, whatever arrives and whatever its limit: it
accepts the diagnostics that it keeps in the end, and having dropped one it goes on to drop. -/
theorem collector_keepsPrefix (maxErrors : Nat) (arrived : List Diagnostic) :
    let collector := (Collector.withLimit maxErrors).pushAll arrived
    collector.Keeps (max maxErrors 1) arrived ∧
      (∀ before diagnostic behind, arrived = before ++ diagnostic :: behind →
        (((Collector.withLimit maxErrors).pushAll before).accepts diagnostic = true ↔
          before.length < collector.items.length)) ∧
      ∀ later, collector.overflowed = true → (collector.pushAll later).overflowed = true := by
  refine ⟨Collector.keeps_withLimit maxErrors arrived, ?_, fun later overflowed => ?_⟩
  · rintro before diagnostic behind rfl
    exact Collector.accepts_iff maxErrors before behind diagnostic
  · rw [Collector.pushAll_of_overflowed overflowed]
    exact overflowed

/-- With a limit of none the first error is kept, and the warnings around it up to the second
error. -/
theorem collector_keepsPrefix_warnings :
    let warning := Diagnostic.warning "doubtful" .start
    let error := Diagnostic.error .grammar "wrong" .start
    let arrived := [warning, error, warning, error, warning]
    let collector := (Collector.withLimit 0).pushAll arrived
    collector.items = [warning, error, warning] ∧ collector.overflowed = true ∧
      arrived = [warning, error, warning] ++ error :: [warning] ∧
      ((Collector.withLimit 0).pushAll [warning, error, warning]).accepts error = false ∧
      collector.Keeps 1 arrived ∧ (collector.pushAll [warning]).overflowed = true := by
  intro warning error arrived collector
  obtain ⟨keeps, accepts, stays⟩ := collector_keepsPrefix 0 arrived
  have overflowed : collector.overflowed = true := rfl
  have split : arrived = [warning, error, warning] ++ error :: [warning] := rfl
  have refused := (not_congr (accepts [warning, error, warning] error [warning] split)).mpr
    (by decide)
  exact ⟨rfl, overflowed, split, Bool.eq_false_iff.mpr refused, keeps, stays [warning] overflowed⟩

end DaxScript
