import DaxScript.Proofs.Script.Relocation
import DaxScript.Proofs.Script.SingleStatement

/-!
# Going on behind a semicolon

A semicolon in which a script ends may have another script behind it.  The turns of the first script
go the same way then, whether their statements are read, passed over or refused, because no
production reads on behind a semicolon (`Exchange.moves_statement`).  What is told of the whole is
what is told of the first script up to its semicolon and what is told from there on
(`Turn.allTold_semicolon`).

There is one way for a statement to reach behind its semicolon.  Some productions read a token
before they judge it.  When the token that such a production refuses is the semicolon, the statement
goes on behind it, and what stands there is passed over up to the next semicolon.
-/

set_option autoImplicit false

namespace DaxScript

/-! ## Statements in front of a semicolon -/

/-- From everywhere to the same place. -/
def Relocation.unmoved : Relocation where
  offset := id
  position := id
  monotone before := before
  consistent _ := rfl

namespace Exchange

/-- A semicolon at the end of the input, and one with further tokens behind it. -/
def semicolon {sign : Token} (isSign : sign.kind = .symbol .semicolon) (behind : List Token) :
    Exchange :=
  { Relocation.unmoved with
    behind := [sign]
    instead := sign :: behind
    ends := .inr ⟨sign, [], behind, isSign, rfl, rfl⟩ }

variable {sign : Token} (isSign : sign.kind = .symbol .semicolon)

theorem exists_front_semicolon {behind tokens others : List Token}
    (inStep : (semicolon isSign behind).InStep tokens others) :
    ∃ front, tokens = front ++ [sign] ∧ others = front ++ sign :: behind := by
  obtain ⟨front, same, same'⟩ := inStep.exists_front
  have unmoved : front.map (semicolon isSign behind).token = front := List.map_id front
  rw [unmoved] at same'
  exact ⟨front, same, same'⟩

/-- A statement in front of a semicolon is read in step with itself. -/
theorem moves_semicolon (first : Token) (rest behind : List Token) :
    (semicolon isSign behind).Moves (semicolon isSign behind).statement
      (Production.statement first (rest ++ [sign]))
      (Production.statement first (rest ++ sign :: behind)) := by
  have inStep := (semicolon isSign behind).inStep_append rest
  have unmoved : rest.map (semicolon isSign behind).token = rest := List.map_id rest
  rw [unmoved] at inStep
  exact moves_statement inStep first

end Exchange

/-! ## What is told turn by turn -/

namespace Turn

/-- The diagnostics of a turn, besides those about tokens. -/
def told (turn : Turn) : List Diagnostic :=
  turn.moments.flatMap fun moment => moment.events.flatMap Event.diagnostics

/-- The diagnostics of all turns, besides those about tokens. -/
def allTold (source : List Char) (finish : Position) (tokens : List Token) : List Diagnostic :=
  (all source finish tokens).flatMap told

/-- The refusal of a turn, if its statement is refused. -/
def refusal? (first : Token) (rest : List Token) : Option Refusal :=
  if first.kind = .symbol .semicolon then none
  else
    match Production.statement first rest with
    | .error refusal => some refusal
    | .ok _ => none

/-- The refusals of all turns. -/
def refusals (source : List Char) (finish : Position) (tokens : List Token) : List Refusal :=
  match tokens with
  | [] => []
  | first :: rest =>
    (refusal? first rest).toList ++
      refusals source finish (ofTokens source finish first rest).rest
termination_by tokens.length
decreasing_by exact length_ofTokens_lt source finish first rest

section

variable (source : List Char) (finish : Position)

theorem allTold_nil : allTold source finish [] = [] := by
  rw [allTold, all]
  rfl

theorem allTold_cons (first : Token) (rest : List Token) :
    allTold source finish (first :: rest) =
      (ofTokens source finish first rest).told ++
        allTold source finish (ofTokens source finish first rest).rest := by
  rw [allTold, all]
  rfl

theorem refusals_nil : refusals source finish [] = [] := by
  rw [refusals]

theorem refusals_cons (first : Token) (rest : List Token) :
    refusals source finish (first :: rest) = (refusal? first rest).toList ++
      refusals source finish (ofTokens source finish first rest).rest := by
  rw [refusals]

end

/-- What a turn passes over tells nothing. -/
theorem told_passAfter (happened : Moment) (tokens : List Token) :
    (passAfter happened tokens).told = happened.events.flatMap Event.diagnostics := by
  simp [told, passAfter, events_pass]

theorem told_lookingAt (rest : List Token) (turn : Turn) : (lookingAt rest turn).told = turn.told :=
  List.nil_append _

theorem isPassed_statement (place : Relocation) (statement : Statement) :
    isPassed (place.statement statement) = isPassed statement := by
  cases statement <;> rfl

/-- A statement that is read or recognised tells nothing. -/
theorem ofStatement_cases (source : List Char) (statement : Statement) (tokens rest : List Token) :
    (ofStatement source statement tokens rest).told = [] ∧
      (ofStatement source statement tokens rest).rest =
        if isPassed statement then (pass 0 rest).2 else rest := by
  cases statement with
  | createOther => exact ⟨told_passAfter _ _, rfl⟩
  | unsupported => exact ⟨told_passAfter _ _, rfl⟩
  | _ => exact ⟨by simp [told, ofStatement, List.flatMap_map, Event.diagnostics], rfl⟩

/-! ## A single turn -/

/-- What two turns leave of their tokens, the first turn with a semicolon behind the tokens and the
second with further tokens behind the semicolon, given the refusal of the first. -/
inductive Resumes (sign : Token) (behind : List Token) (refusal? : Option Refusal) :
    List Token → List Token → Prop where
  /-- Reading goes on before the semicolon. -/
  | before (kept : ∀ refusal ∈ refusal?, refusal.unread ≠ 0) (left : List Token) :
      Resumes sign behind refusal? (left ++ [sign]) (left ++ sign :: behind)
  /-- The statement ends with the semicolon. -/
  | handed (kept : ∀ refusal ∈ refusal?, refusal.unread ≠ 0) :
      Resumes sign behind refusal? [] behind
  /-- The semicolon is what the statement is refused for, and has been read. -/
  | past {refusal : Refusal} (refused : refusal ∈ refusal?) (swallowed : refusal.unread = 0) :
      Resumes sign behind refusal? [] (pass 0 behind).2

section Semicolon

variable {sign : Token} (isSign : sign.kind = .symbol .semicolon) {behind rest : List Token}
include isSign

/-- **Passing over balanced tokens ends at the semicolon behind them**, if not before. -/
theorem resumes_pass {opened depth : Nat} (fewer : opened ≤ depth)
    (balanced : isBalanced depth (rest.map (·.kind)) = true) {refusal? : Option Refusal}
    (kept : ∀ refusal ∈ refusal?, refusal.unread ≠ 0) :
    Resumes sign behind refusal? (pass opened (rest ++ [sign])).2
      (pass opened (rest ++ sign :: behind)).2 := by
  obtain ⟨_, alone⟩ := pass_append (Terminates.semicolon isSign []) fewer balanced
  obtain ⟨_, joined⟩ := pass_append (Terminates.semicolon isSign behind) fewer balanced
  rcases alone with ⟨some, same⟩ | ⟨none, _, handed, _⟩
  · rcases joined with ⟨_, same'⟩ | ⟨none, _⟩
    · rw [same, same']
      exact .before kept _
    · exact absurd none some
  · rcases joined with ⟨some, _⟩ | ⟨_, _, handed', _⟩
    · exact absurd none some
    · rw [handed, handed']
      exact .handed kept

/-- A refused statement goes on behind the semicolon as if it began there, unless it has read the
semicolon. -/
theorem resumes_ofRefusal {depth : Nat} (balanced : isBalanced depth (rest.map (·.kind)) = true)
    {refusal other : Refusal}
    (refuses : (Exchange.semicolon isSign behind).Refuses refusal other)
    (finish finish' : Position) :
    (ofRefusal finish' other (rest ++ sign :: behind)).told =
        (ofRefusal finish refusal (rest ++ [sign])).told ∧
      Resumes sign behind (some refusal) (ofRefusal finish refusal (rest ++ [sign])).rest
        (ofRefusal finish' other (rest ++ sign :: behind)).rest := by
  obtain ⟨issue, position, unread, _, placed⟩ := refuses
  have unread' : other.unread = refusal.unread + behind.length := by
    simp only [Exchange.semicolon, List.length_cons, List.length_nil] at unread
    omega
  constructor
  · obtain ⟨place, isPlace⟩ := Option.isSome_iff_exists.mp (placed (by simp [Exchange.semicolon]))
    have isPlace' : other.position = some place := by
      rw [position, isPlace]
      rfl
    rw [ofRefusal, ofRefusal, told_passAfter, told_passAfter]
    simp only [Refusal.diagnostic, issue, isPlace, isPlace']
    rfl
  · have sameCount : (rest ++ sign :: behind).length - other.unread =
        (rest ++ [sign]).length - refusal.unread := by
      simp only [List.length_append, List.length_cons, List.length_nil, unread']
      omega
    simp only [ofRefusal, passAfter, sameCount]
    by_cases swallowed : refusal.unread = 0
    · have all : (rest ++ [sign]).length - refusal.unread = (rest ++ [sign]).length := by
        rw [swallowed, Nat.sub_zero]
      have alone : (rest ++ [sign]).drop (rest ++ [sign]).length = [] := List.drop_length
      have joined : (rest ++ [sign] ++ behind).drop (rest ++ [sign]).length = behind :=
        List.drop_left
      rw [← List.append_cons] at joined
      rw [all, alone, joined]
      exact .past rfl swallowed
    · have within : (rest ++ [sign]).length - refusal.unread ≤ rest.length := by
        simp only [List.length_append, List.length_cons, List.length_nil]
        omega
      rw [List.drop_append_of_le_length within, List.drop_append_of_le_length within]
      rw [← List.take_append_drop ((rest ++ [sign]).length - refusal.unread) rest,
        List.map_append] at balanced
      obtain ⟨inner, balanced⟩ := exists_isBalanced_of_append balanced
      exact resumes_pass isSign (Nat.zero_le inner) balanced (by simpa using swallowed)

/-- **A turn goes on behind the semicolon as if it began there**, unless its statement has read the
semicolon. -/
theorem resumes_ofTokens {depth : Nat} {first : Token}
    (balanced : isBalanced depth ((first :: rest).map (·.kind)) = true) (behind : List Token)
    (source source' : List Char) (finish finish' : Position) :
    let alone := ofTokens source finish first (rest ++ [sign])
    let joined := ofTokens source' finish' first (rest ++ sign :: behind)
    joined.told = alone.told ∧
      Resumes sign behind (refusal? first (rest ++ [sign])) alone.rest joined.rest := by
  have none : ∀ refusal ∈ (Option.none : Option Refusal), refusal.unread ≠ 0 := by simp
  by_cases semicolon : first.kind = .symbol .semicolon
  · rw [ofTokens_semicolon semicolon, ofTokens_semicolon semicolon, refusal?, if_pos semicolon]
    exact ⟨rfl, .before none rest⟩
  have moves := Exchange.moves_semicolon isSign first rest behind
  unfold ofTokens refusal?
  simp only [if_neg semicolon]
  cases outcome : Production.statement first (rest ++ [sign]) with
  | error refusal =>
    rw [outcome] at moves
    obtain ⟨inner, balanced⟩ := @exists_isBalanced_of_append [first.kind] _ _ balanced
    generalize Production.statement first (rest ++ sign :: behind) = outcome' at moves ⊢
    cases moves with
    | error same => exact resumes_ofRefusal isSign balanced same finish finish'
  | ok parsed =>
    rw [outcome] at moves
    have cut : ∃ used, first :: (rest ++ [sign]) = used ++ parsed.rest := by
      rcases yields_statement ⟨parsed, outcome, rfl, rfl⟩ with ⟨_, same⟩ | ⟨used, cut, _⟩
      · exact ⟨[first], by rw [same]; rfl⟩
      · exact ⟨used, cut⟩
    generalize Production.statement first (rest ++ sign :: behind) = outcome' at moves ⊢
    cases moves with
    | @ok _ other sameValue inStep =>
      obtain ⟨value, left, fits⟩ := parsed
      obtain ⟨_, left', fits'⟩ := other
      obtain ⟨front, rfl, rfl⟩ := Exchange.exists_front_semicolon isSign inStep
      subst sameValue
      obtain ⟨used, cut⟩ := cut
      have split : first :: rest = used ++ front := by
        exact List.append_cancel_right (cut.trans (List.append_assoc _ _ [sign]).symm)
      rw [split, List.map_append] at balanced
      obtain ⟨inner, balanced⟩ := exists_isBalanced_of_append balanced
      obtain ⟨silent, left⟩ := ofStatement_cases source value (first :: (rest ++ [sign]))
        (front ++ [sign])
      obtain ⟨silent', left'⟩ := ofStatement_cases source'
        ((Exchange.semicolon isSign behind).statement value) (first :: (rest ++ sign :: behind))
        (front ++ sign :: behind)
      refine ⟨silent'.trans silent.symm, ?_⟩
      simp only [left, left', isPassed_statement]
      split
      · exact resumes_pass isSign (Nat.zero_le inner) balanced none
      · exact .before none front

/-! ## All turns -/

/-- What is told of a semicolon and of tokens behind it is told of these. -/
theorem allTold_sign (source : List Char) (finish : Position) :
    allTold source finish (sign :: behind) = allTold source finish behind := by
  rw [allTold_cons, ofTokens_semicolon isSign, told_lookingAt]
  rfl

/-- **What is told of a script with tokens behind its semicolon** is what is told of the script up
to its semicolon, and then what is told of the tokens from there on; or from where the statement
ends that they are part of, if a statement of the script has read the semicolon. -/
theorem allTold_semicolon {tokens : List Token} {depth : Nat}
    (balanced : isBalanced depth (tokens.map (·.kind)) = true) (behind : List Token)
    (source source' : List Char) (finish finish' : Position) :
    allTold source' finish' (tokens ++ sign :: behind) =
      allTold source finish (tokens ++ [sign]) ++
        allTold source' finish'
          (if ∀ refusal ∈ refusals source finish (tokens ++ [sign]), refusal.unread ≠ 0 then behind
            else (pass 0 behind).2) := by
  induction whole : tokens ++ [sign] using Turn.byTurns source finish
    generalizing tokens depth with
  | nil => simp at whole
  | turn first rest ih =>
    cases tokens with
    | nil =>
      obtain ⟨rfl, rfl⟩ := List.cons.inj whole
      have noRefusals : refusals source finish [sign] = [] := by
        rw [refusals_cons, ofTokens_semicolon isSign, refusal?, if_pos isSign]
        exact refusals_nil source finish
      rw [List.nil_append, allTold_sign isSign, allTold_sign isSign, allTold_nil, noRefusals]
      rfl
    | cons opening tokens =>
      rw [List.cons_append] at whole
      obtain ⟨rfl, rfl⟩ := List.cons.inj whole
      obtain ⟨sameTold, resumes⟩ := resumes_ofTokens isSign balanced behind source source'
        finish finish'
      obtain ⟨used, cut⟩ := (course source finish opening (tokens ++ [sign])).rest_suffix
      rw [List.cons_append, allTold_cons, allTold_cons, refusals_cons, sameTold, List.append_assoc]
      refine congrArg _ ?_
      generalize (ofTokens source finish opening (tokens ++ [sign])).rest = left at ih resumes cut ⊢
      generalize (ofTokens source' finish' opening (tokens ++ sign :: behind)).rest = left'
        at resumes ⊢
      have split (further : List Refusal) :
          (∀ refusal ∈ (refusal? opening (tokens ++ [sign])).toList ++ further,
            refusal.unread ≠ 0) ↔
            (∀ refusal ∈ refusal? opening (tokens ++ [sign]), refusal.unread ≠ 0) ∧
              ∀ refusal ∈ further, refusal.unread ≠ 0 := by
        simp only [List.forall_mem_append, Option.mem_toList, Option.mem_def]
      simp only [split]
      cases resumes with
      | before kept left =>
        have same : opening :: tokens = used ++ left := by
          exact List.append_cancel_right (cut.symm.trans (List.append_assoc _ _ [sign]).symm)
        rw [same, List.map_append] at balanced
        obtain ⟨inner, balanced⟩ := exists_isBalanced_of_append balanced
        rw [ih balanced rfl]
        simp only [and_iff_right kept]
      | handed kept =>
        rw [allTold_nil, refusals_nil, List.nil_append, if_pos ⟨kept, by simp⟩]
      | past refused swallowed =>
        rw [allTold_nil, List.nil_append, if_neg fun both => both.1 _ refused swallowed]

end Semicolon

section Relocated

variable {place : Relocation} {carry : Measure → Measure} {source moved : List Char}

theorem told_turn (turn : Turn) :
    (place.turn carry turn).told = turn.told.map place.diagnostic := by
  have event (event : Event) :
      (place.event carry event).diagnostics = event.diagnostics.map place.diagnostic := by
    cases event <;> rfl
  simp only [told, Relocation.turn, Relocation.moment, List.flatMap_map, event, List.map_flatMap]

/-- **Of relocated tokens the same is told**, in the new place. -/
theorem allTold_map (carries : place.Carries carry source moved) (finish : Position)
    (tokens : List Token) :
    allTold moved (place.position finish) (tokens.map place.token) =
      (allTold source finish tokens).map place.diagnostic := by
  induction tokens using Turn.byTurns source finish with
  | nil => rw [List.map_nil, allTold_nil, allTold_nil, List.map_nil]
  | turn first rest ih =>
    rw [List.map_cons, allTold_cons, allTold_cons, Relocation.ofTokens_map carries, told_turn,
      List.map_append, ← ih]
    rfl

end Relocated

end Turn

end DaxScript
