import DaxScript.Proofs.Grammar.MeasureTables
import DaxScript.Proofs.Script.CountedStatements
import DaxScript.Proofs.Script.SingleStatement

/-!
# Turns up to a measure

A measure counts if it is defined in a turn before which nothing was refused.  So reading comes to
it through turns in which a statement is read or passed over (`Turn.Reaches`), and it does so for
every measure that counts (`StatementReport.reaches_of_counted`).

What happens in such a turn does not depend on the tokens behind the first one that it leaves
(`Turn.ofTokens_exchange`).  That one does matter: a statement ends in front of a keyword that
begins another one.  Of a turn in which something is refused this is not said here, as it goes on to
wherever the next statement may begin.
-/

set_option autoImplicit false

namespace DaxScript

open Production

/-- A statement that begins with a token and defines a measure is read to its end. -/
theorem exists_rule_of_mem {first : Token} {rest : List Token} {statement : Statement}
    (found : statementAt? first rest = some statement) {clause : MeasureClause}
    (member : clause ∈ statement.measures) :
    ∃ used left, first :: rest = used ++ left ∧
      Rule.Statement used statement (nextKind left) := by
  have reading : ∃ left, Yields (Production.statement first rest) statement left := by
    unfold statementAt? at found
    cases outcome : Production.statement first rest with
    | error =>
      rw [outcome] at found
      cases found
    | ok parsed =>
      rw [outcome] at found
      cases found
      exact ⟨parsed.rest, Yields.of_ok⟩
  obtain ⟨left, reading⟩ := reading
  rcases yields_statement reading with ⟨recognised, _⟩ | ⟨used, cut, reading⟩
  · rw [measures_of_recognised? recognised] at member
    cases member
  · exact ⟨used, left, cut, reading⟩

namespace Turn

/-- In turns in which nothing is refused reading comes to a statement that defines a measure. -/
inductive Reaches (source : List Char) (finish : Position) (clause : MeasureClause) :
    List Token → Prop where
  | here {first : Token} {rest used left : List Token} {statement : Statement}
      (cut : first :: rest = used ++ left)
      (reading : Rule.Statement used statement (nextKind left))
      (member : clause ∈ statement.measures) : Reaches source finish clause (first :: rest)
  | later {first : Token} {rest : List Token} (right : (statementAt? first rest).isSome = true)
      (behind : Reaches source finish clause (ofTokens source finish first rest).rest) :
      Reaches source finish clause (first :: rest)

namespace Reaches

variable {source : List Char} {finish : Position} {clause : MeasureClause} {tokens : List Token}

/-- The table of the measure is among the tokens, and not the first of them. -/
theorem exists_table (reaches : Reaches source finish clause tokens) :
    ∃ before behind, tokens = before ++ clause.table :: behind ∧ before ≠ [] := by
  induction reaches with
  | here cut reading member =>
    obtain ⟨before, behind, _, _, rfl, _, stands, _⟩ := reading.exchange member
    exact ⟨before, _, by rw [cut, List.append_assoc]; rfl, stands.before_ne_nil⟩
  | @later first rest _ _ ih =>
    obtain ⟨before, behind, same, some⟩ := ih
    obtain ⟨used, cut⟩ := (course source finish first rest).rest_suffix
    rw [same] at cut
    exact ⟨used ++ before, behind, by rw [← cut, List.append_assoc], by simp [some]⟩

/-- What a turn leaves begins behind its first token, and in front of the table. -/
theorem exists_left {first : Token} {rest : List Token}
    (behind : Reaches source finish clause (ofTokens source finish first rest).rest) :
    ∃ used token inner after, rest = used ++ token :: (inner ++ clause.table :: after) ∧
      (ofTokens source finish first rest).rest = token :: (inner ++ clause.table :: after) := by
  obtain ⟨inner, after, leaves, some⟩ := behind.exists_table
  obtain ⟨token, inner, rfl⟩ := List.exists_cons_of_ne_nil some
  obtain ⟨used, cut⟩ := (course source finish first rest).rest_suffix
  have shorter := length_ofTokens_lt source finish first rest
  cases used with
  | nil =>
    rw [List.nil_append] at cut
    rw [cut] at shorter
    exact absurd shorter (Nat.lt_irrefl _)
  | cons _ used =>
    rw [leaves] at cut
    exact ⟨used, token, inner, after, (List.cons.inj cut).2.symm, leaves⟩

end Reaches

end Turn

/-- A token is where the passing ends, behind it or in front of it, or it is passed over.  The
tokens behind it make no difference. -/
theorem Turn.pass_cons_cases (depth : Nat) (token : Token) :
    (∀ rest, pass depth (token :: rest) = (⟨rest.length + 1, []⟩, rest)) ∨
      (∀ rest, pass depth (token :: rest) = (⟨rest.length + 1, []⟩, token :: rest)) ∨
      ∃ deeper, ∀ rest, pass depth (token :: rest) = pass deeper rest := by
  obtain ⟨kind, span, position, spelling⟩ := token
  cases kind with
  | symbol sign =>
    cases sign with
    | semicolon =>
      by_cases none : depth = 0
      · exact .inl fun rest => if_pos none
      · exact .inr (.inr ⟨depth, fun rest => if_neg none⟩)
    | leftParen => exact .inr (.inr ⟨depth + 1, fun _ => rfl⟩)
    | leftBrace => exact .inr (.inr ⟨depth + 1, fun _ => rfl⟩)
    | rightParen => exact .inr (.inr ⟨depth - 1, fun _ => rfl⟩)
    | rightBrace => exact .inr (.inr ⟨depth - 1, fun _ => rfl⟩)
    | _ => exact .inr (.inr ⟨depth, fun _ => rfl⟩)
  | keyword word =>
    by_cases starts : depth = 0 ∧ word.startsStatement = true
    · exact .inr (.inl fun rest => if_pos starts)
    · exact .inr (.inr ⟨depth, fun rest => if_neg starts⟩)
  | _ => exact .inr (.inr ⟨depth, fun _ => rfl⟩)

/-- What is passed over in front of a token does not depend on what stands behind it. -/
theorem Turn.pass_exchange {depth : Nat} {used more others : List Token} {token : Token}
    (stops : (pass depth (used ++ token :: more)).2 = token :: more)
    (sameLength : others.length = more.length) :
    pass depth (used ++ token :: others) =
      ((pass depth (used ++ token :: more)).1, token :: others) := by
  have longer {front rest : List Token} (same : front ++ rest = rest) : front = [] :=
    List.append_left_eq_self.mp same
  induction used generalizing depth with
  | nil =>
    have shorter (rest : List Token) (suffix : rest <:+ more) : rest ≠ token :: more := by
      rintro rfl
      exact Nat.not_succ_le_self _ suffix.length_le
    rcases pass_cons_cases depth token with behind | inFront | ⟨deeper, onward⟩
    · rw [List.nil_append, behind] at stops
      exact absurd stops (shorter _ (List.suffix_refl _))
    · rw [List.nil_append, List.nil_append, inFront, inFront, sameLength]
    · rw [List.nil_append, onward] at stops
      exact absurd stops (shorter _ (pass_suffix deeper more))
  | cons first used ih =>
    rw [List.cons_append] at stops ⊢
    rw [List.cons_append]
    rcases pass_cons_cases depth first with behind | inFront | ⟨deeper, onward⟩
    · rw [behind] at stops
      obtain rfl := longer stops
      simp [behind, sameLength]
    · rw [inFront, ← List.cons_append] at stops
      cases longer stops
    · rw [onward] at stops ⊢
      rw [onward]
      exact ih stops

/-- **A turn in which nothing is refused does not depend on the tokens behind the first one that it
leaves**, apart from their number. -/
theorem Turn.ofTokens_exchange {source : List Char} {finish : Position} {first token : Token}
    {used more others : List Token}
    (right : (statementAt? first (used ++ token :: more)).isSome = true)
    (leaves : (ofTokens source finish first (used ++ token :: more)).rest = token :: more)
    (sameLength : others.length = more.length) :
    ofTokens source finish first (used ++ token :: others) =
      ⟨(ofTokens source finish first (used ++ token :: more)).moments, token :: others⟩ := by
  have lengths : (used ++ token :: others).length = (used ++ token :: more).length := by
    simp [sameLength]
  have sameNext : nextKind (used ++ token :: others) = nextKind (used ++ token :: more) := by
    cases used <;> rfl
  have course := course source finish first (used ++ token :: more)
  generalize ofTokens source finish first (used ++ token :: more) = turn at course leaves ⊢
  cases course with
  | semicolon sign =>
    obtain rfl : used = [] := List.append_left_eq_self.mp leaves
    rw [ofTokens_semicolon sign, lookingAt, lookingAt, lengths]
    rfl
  | @passed statement noSign recognised =>
    have passed := pass_exchange leaves sameLength
    have same : recognition first (used ++ token :: others) statement =
        recognition first (used ++ token :: more) statement := by
      cases statement <;> simp only [recognition, lengths]
    rw [← sameNext] at recognised
    rw [ofTokens_of_recognised? noSign recognised, same]
    simp only [lookingAt, passAfter, passed, lengths]
  | @read statement own left noSign cut reading =>
    obtain rfl : left = token :: more := leaves
    have sameUsed : first :: used = own := List.append_cancel_right cut
    have cut' : first :: (used ++ token :: others) = own ++ token :: others := by
      rw [← sameUsed]
      rfl
    rw [ofTokens_of_rule noSign cut' reading]
    simp only [lookingAt, definition, lengths, List.length_cons, sameLength]
  | refused noSign refused =>
    rw [statementAt?, refused] at right
    cases right

/-- A semicolon begins no statement that defines measures. -/
theorem isSome_statementAt?_semicolon {sign : Token} (isSign : sign.kind = .symbol .semicolon)
    (rest : List Token) : (statementAt? sign rest).isSome = true := by
  simp [statementAt?, Production.statement, isSign, Except.toOption]

/-- **In the turns of a script reading comes to every measure that counts.** -/
theorem StatementReport.reaches_of_counted {source : List Char} {finish : Position}
    {recording : Recording} {faults : List (List Diagnostic)} {tokens : List Token}
    (between : Between finish recording faults tokens) {words : List Keyword}
    {clause : MeasureClause}
    (member : (words, clause) ∈ ((all source finish recording faults tokens).takeWhile
      (·.recorded.isEmpty)).flatMap (·.openedMeasures)) :
    Turn.Reaches source finish clause tokens := by
  induction tokens using Turn.byTurns source finish generalizing recording faults with
  | nil => simp [all] at member
  | turn first rest ih =>
    cases room : recording.collector.overflowed with
    | true => simp [all, room] at member
    | false =>
      have after := between.afterTurn (Turn.course source finish first rest)
      have refused := @recorded_of_refused source finish recording faults _ between
      rw [all_cons first rest room] at member refused
      simp only at member refused
      by_cases sign : first.kind = .symbol .semicolon
      · rw [if_pos sign] at member
        exact .later (isSome_statementAt?_semicolon sign rest) (ih after member)
      · rw [if_neg sign, List.takeWhile_cons] at member
        rw [if_neg sign] at refused
        split at member
        · next counts =>
          cases found : statementAt? first rest with
          | none =>
            exact absurd (List.isEmpty_iff.mp counts) (refused _ (.head _) found)
          | some statement =>
            rw [List.flatMap_cons, openedMeasures, found] at member
            rcases List.mem_append.mp member with own | isLater
            · obtain ⟨inner, isMeasure, same⟩ := List.mem_map.mp own
              obtain ⟨_, rfl⟩ := Prod.mk.inj same
              obtain ⟨used, left, cut, reading⟩ := exists_rule_of_mem found isMeasure
              exact .here cut reading isMeasure
            · exact .later (by rw [found]; rfl) (ih after isLater)
        · simp at member

end DaxScript
