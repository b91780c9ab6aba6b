import DaxScript.Proofs.ErrorLimit
import DaxScript.Proofs.Script.CountedStatements
import DaxScript.Proofs.Script.Resuming
import DaxScript.Proofs.ScriptComposition

/-!
# The portions of a script

Each turn takes tokens off a script: those of the statement that it reads, or those that it passes
over.  Semicolons between statements apart, these are the portions of the script.

The portions stand one behind the other (`Portion.pairwise_all`), and the measures of a portion
stand among its tokens (`Portion.measure_within`).  Where nothing is wrong with a script every
portion is a statement, and the measures of the script are those of its portions
(`portions_of_readMeasures`).
-/

set_option autoImplicit false

namespace DaxScript

/-- The tokens that a turn takes off a script. -/
structure Portion where
  first : Token
  /-- The tokens behind the first one, up to the token at which the next turn begins. -/
  further : List Token
  /-- What the tokens are read as, unless they are refused. -/
  statement? : Option Statement

namespace Portion

def tokens (portion : Portion) : List Token :=
  portion.first :: portion.further

/-- The measures that a portion of a source defines. -/
def measures (source : List Char) (portion : Portion) : List Measure :=
  measuresOf source portion.statement?

/-- Whether the portion is passed over. -/
def isPassed (portion : Portion) : Bool :=
  portion.statement?.any Turn.isPassed

/-- The portions of tokens, without the semicolons between them. -/
def all (source : List Char) (finish : Position) (tokens : List Token) : List Portion :=
  match tokens with
  | [] => []
  | first :: rest =>
    let left := (Turn.ofTokens source finish first rest).rest
    if first.kind = .symbol .semicolon then all source finish left
    else
      ⟨first, rest.take (rest.length - left.length), statementAt? first rest⟩ ::
        all source finish left
termination_by tokens.length
decreasing_by all_goals exact Turn.length_ofTokens_lt source finish first rest

/-- The portions of a source. -/
def ofSource (source : String) : List Portion :=
  let input := Input.ofSource source
  all source.toList input.finish input.tokens

section Turns

variable (source : List Char) (finish : Position) (first : Token) (rest : List Token)

theorem all_nil : all source finish [] = [] := by
  rw [all]

theorem all_of_semicolon (sign : first.kind = .symbol .semicolon) :
    all source finish (first :: rest) =
      all source finish (Turn.ofTokens source finish first rest).rest := by
  rw [all, if_pos sign]

/-- The first portion, and what its tokens are followed by. -/
theorem exists_all_eq (noSign : first.kind ≠ .symbol .semicolon) :
    ∃ further, rest = further ++ (Turn.ofTokens source finish first rest).rest ∧
      all source finish (first :: rest) = ⟨first, further, statementAt? first rest⟩ ::
        all source finish (Turn.ofTokens source finish first rest).rest := by
  refine ⟨_, ?_, by rw [all, if_neg noSign]⟩
  have shorter := Turn.length_ofTokens_lt source finish first rest
  have suffix := (Turn.course source finish first rest).rest_suffix
  generalize (Turn.ofTokens source finish first rest).rest = left at shorter suffix ⊢
  rcases List.suffix_cons_iff.mp suffix with rfl | ⟨further, rfl⟩
  · exact absurd shorter (by simp)
  · simp

end Turns

section All

variable {source : List Char} {finish : Position} {tokens : List Token}

/-! ## Places -/

/-- A portion is what a turn takes off the tokens. -/
theorem exists_turn {portion : Portion} (member : portion ∈ all source finish tokens) :
    ∃ before rest, tokens = before ++ portion.first :: rest ∧
      portion.first.kind ≠ .symbol .semicolon ∧
      rest = portion.further ++ (Turn.ofTokens source finish portion.first rest).rest ∧
      portion.statement? = statementAt? portion.first rest := by
  induction tokens using Turn.byTurns source finish with
  | nil =>
    rw [all_nil] at member
    cases member
  | turn first rest ih =>
    obtain ⟨front, suffix⟩ := (Turn.course source finish first rest).rest_suffix
    have later
        (member : portion ∈ all source finish (Turn.ofTokens source finish first rest).rest) :
        ∃ before inner, first :: rest = before ++ portion.first :: inner ∧
          portion.first.kind ≠ .symbol .semicolon ∧
          inner = portion.further ++ (Turn.ofTokens source finish portion.first inner).rest ∧
          portion.statement? = statementAt? portion.first inner := by
      obtain ⟨before, inner, cut, found⟩ := ih member
      exact ⟨front ++ before, inner, by rw [← suffix, cut, List.append_assoc], found⟩
    by_cases sign : first.kind = .symbol .semicolon
    · rw [all_of_semicolon _ _ _ _ sign] at member
      exact later member
    · obtain ⟨further, cut, same⟩ := exists_all_eq source finish first rest sign
      rw [same] at member
      rcases List.mem_cons.mp member with rfl | isLater
      · exact ⟨[], rest, rfl, sign, cut, rfl⟩
      · exact later isLater

theorem exists_eq_append {portion : Portion} (member : portion ∈ all source finish tokens) :
    ∃ before after, tokens = before ++ (portion.tokens ++ after) := by
  obtain ⟨before, rest, same, _, cut, _⟩ := exists_turn member
  exact ⟨before, _, same.trans (congrArg (before ++ portion.first :: ·) cut)⟩

/-- Each portion ends before the next one begins. -/
theorem pairwise_all (ordered : InOrder tokens) :
    (all source finish tokens).Pairwise fun earlier later =>
      ∀ token ∈ earlier.tokens, token.span.stop ≤ later.first.span.start := by
  induction tokens using Turn.byTurns source finish with
  | nil =>
    rw [all_nil]
    exact .nil
  | turn first rest ih =>
    have suffix := (Turn.course source finish first rest).rest_suffix
    have later := ih (by
      obtain ⟨front, same⟩ := suffix
      rw [← same] at ordered
      exact ordered.right)
    by_cases sign : first.kind = .symbol .semicolon
    · rwa [all_of_semicolon _ _ _ _ sign]
    · obtain ⟨further, cut, same⟩ := exists_all_eq source finish first rest sign
      rw [same]
      refine List.pairwise_cons.mpr ⟨fun portion member token own => ?_, later⟩
      rw [cut, ← List.cons_append] at ordered
      obtain ⟨before, after, whole⟩ := exists_eq_append member
      exact ordered.stop_le own (by simp [whole, Portion.tokens])

/-- **The measures of a portion stand among its tokens.** -/
theorem measure_within {portion : Portion} (member : portion ∈ all source finish tokens)
    (ordered : InOrder tokens) {measure : Measure} (isOwn : measure ∈ portion.measures source) :
    portion.first.span.start ≤ measure.span.start ∧
      ∃ last ∈ portion.tokens, measure.span.stop = last.span.stop := by
  obtain ⟨before, rest, rfl, noSign, cut, same⟩ := exists_turn member
  obtain ⟨used, cut', texts⟩ :=
    (Turn.course source finish portion.first rest).exists_measureTexts
  have isUsed : portion.tokens = used :=
    List.append_cancel_right ((congrArg (portion.first :: ·) cut).symm.trans cut')
  have inner : InOrder portion.tokens := by
    have behind := ordered.right
    rw [cut'] at behind
    exact isUsed ▸ behind.left
  simp only [measures, measuresOf, List.mem_map] at isOwn
  obtain ⟨clause, isClause, rfl⟩ := isOwn
  have owned := texts noSign
  rw [← isUsed, ← same] at owned
  cases read : portion.statement? with
  | none =>
    rw [read] at isClause
    cases isClause
  | some statement =>
    rw [read] at isClause owned
    obtain ⟨start, isToken, last, isLast, ends⟩ :=
      owned.exists_ends inner (List.mem_map_of_mem isClause)
    rw [show (Measure.ofClause source clause).span = clause.span from rfl, ends]
    refine ⟨?_, last, isLast, rfl⟩
    rcases List.mem_cons.mp isToken with rfl | isFurther
    · exact Nat.le_refl _
    · exact (inner.forward _ (.head _)).trans
        ((List.pairwise_cons.mp inner.apart).1 start isFurther)

/-! ## What is defined and what is told -/

/-- The measures that are defined in the turns are those of the portions. -/
theorem flatMap_measures_allEvents (faults : List (List Diagnostic)) :
    (Turn.allEvents faults (Turn.all source finish tokens)).flatten.flatMap Event.measures =
      (all source finish tokens).flatMap (measures source) := by
  induction tokens using Turn.byTurns source finish generalizing faults with
  | nil =>
    rw [all_nil, Turn.all, Turn.allEvents, Turn.allEvents, List.flatten_cons, List.flatten_nil,
      List.append_nil, Turn.flatMap_measures_events]
    rfl
  | turn first rest ih =>
    obtain ⟨told, silent, same⟩ := (Turn.course source finish first rest).events_eq faults
    rw [Turn.all, Turn.allEvents, List.flatten_cons, List.flatMap_append, same,
      List.flatMap_append, silent, Event.measures_definitions, List.nil_append, ih,
      Turn.Course.measures]
    by_cases sign : first.kind = .symbol .semicolon
    · rw [if_pos sign, all_of_semicolon _ _ _ _ sign, List.nil_append]
    · obtain ⟨further, _, cons⟩ := exists_all_eq source finish first rest sign
      rw [if_neg sign, cons, List.flatMap_cons]
      rfl

/-- Where nothing is told no portion is refused. -/
theorem isSome_of_silent {faults : List (List Diagnostic)}
    (silent : (Turn.allEvents faults (Turn.all source finish tokens)).flatten.flatMap
      Event.diagnostics = []) :
    ∀ portion ∈ all source finish tokens, portion.statement?.isSome := by
  induction tokens using Turn.byTurns source finish generalizing faults with
  | nil =>
    rw [all_nil]
    exact fun _ member => absurd member List.not_mem_nil
  | turn first rest ih =>
    rw [Turn.all, Turn.allEvents, List.flatten_cons, List.flatMap_append,
      List.append_eq_nil_iff] at silent
    by_cases sign : first.kind = .symbol .semicolon
    · rw [all_of_semicolon _ _ _ _ sign]
      exact ih silent.2
    · obtain ⟨further, _, cons⟩ := exists_all_eq source finish first rest sign
      rw [cons]
      refine List.forall_mem_cons.mpr ⟨?_, ih silent.2⟩
      refine Option.ne_none_iff_isSome.mp fun none => ?_
      exact (Turn.course source finish first rest).diagnostics_ne_nil sign none faults silent.1

end All

end Portion

/-- Where nothing is told all measures come before the first error. -/
theorem Event.measuresBeforeError_of_silent {events : List Event}
    (silent : events.flatMap diagnostics = []) :
    measuresBeforeError false events = events.flatMap measures := by
  induction events with
  | nil => rfl
  | cons event events ih =>
    rw [List.flatMap_cons, List.append_eq_nil_iff] at silent
    rw [measuresBeforeError, silent.1, List.flatMap_cons]
    exact congrArg _ (ih silent.2)

theorem eq_measures_of_readMeasures {source : String} {measures : List Measure}
    (read : readMeasures source = .ok measures) : measures = (readScript source {}).measures := by
  simp only [readMeasures] at read
  split at read
  · cases read
  · exact (Except.ok.inj read).symm

/-- **The measures of a script are those of its portions**, each of which is a statement, and the
text of the script has no faults. -/
theorem portions_of_readMeasures {source : String} {measures : List Measure}
    (read : readMeasures source = .ok measures) :
    (∀ piece ∈ Piece.all source.toList, piece.fault? = none) ∧
      (∀ portion ∈ Portion.ofSource source, portion.statement?.isSome) ∧
      measures = (Portion.ofSource source).flatMap (·.measures source.toList) := by
  have same := eq_measures_of_readMeasures read
  simp only [readMeasures] at read
  split at read
  · cases read
  · next right =>
    rw [hasErrors_readScript, Bool.not_eq_true, Bool.not_eq_false', List.isEmpty_iff] at right
    have silent : (readScript source {}).collector.items = [] := by
      rw [collector_readScript, right, List.take_nil]
    refine ⟨fault?_eq_none_of_right silent, Portion.isSome_of_silent right, ?_⟩
    rw [same, measures_readScript, Event.measuresBeforeError_of_silent right]
    exact Portion.flatMap_measures_allEvents _

end DaxScript
