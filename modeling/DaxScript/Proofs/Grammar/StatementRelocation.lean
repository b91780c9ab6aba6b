import DaxScript.Proofs.Grammar.OperandRelocation

/-!
# Reading relocated statements

The productions of statements and of their parts are natural as those of expressions are
(`Relocation.moves_statement`).  A relocated statement defines relocated measures.

A relocation may also leave the tokens of a statement where they are and move everything else.
What reading is about then stays where it is, so a refusal is about one of the tokens
(`Production.position_of_refused`).
-/

set_option autoImplicit false

namespace DaxScript

open Production

namespace Relocation

variable (place : Relocation)

/-! ## Relocated statements -/

def clause (clause : MeasureClause) : MeasureClause where
  start := place.offset clause.start
  table := place.token clause.table
  name := place.token clause.name
  body := place.expr clause.body
  property := clause.property

def definition : Definition → Definition
  | .measure clause => .measure (place.clause clause)
  | .binding name value => .binding name (place.expr value)

def sortKey (key : Expr × Option Direction) : Expr × Option Direction :=
  (place.expr key.1, key.2)

def query (query : Query) : Query :=
  ⟨place.expr query.table, query.ordering.map place.sortKey⟩

def statement : Statement → Statement
  | .createMeasure clause => .createMeasure (place.clause clause)
  | .define definitions query => .define (definitions.map place.definition) (place.query query)
  | .evaluate query => .evaluate (place.query query)
  | .expression value => .expression (place.expr value)
  | .createOther create object => .createOther (place.token create) object
  | .unsupported first => .unsupported (place.token first)

theorem measures_statement (statement : Statement) :
    (place.statement statement).measures = statement.measures.map place.clause := by
  cases statement with
  | define definitions query =>
    simp only [Relocation.statement, Statement.measures, List.filterMap_map, List.map_filterMap]
    apply List.filterMap_congr
    intro definition _
    cases definition <;> rfl
  | _ => rfl

end Relocation

namespace Exchange

variable {exchange : Exchange}

/-! ## Parts of statements -/

theorem natural_measureTable : exchange.Natural exchange.token measureTable := by
  intro tokens others inStep
  rcases inStep.cases with ⟨rfl, rfl⟩ | ⟨⟨kind, span, position, spelling⟩, rest, rest', rfl, rfl,
    onward⟩
  · exact .error (inStep.reject _)
  · cases kind with
    | identifier => exact .ok rfl (onward (by simp))
    | keyword => exact .ok rfl (onward (by simp))
    | quotedName name =>
      exact .ite Iff.rfl (fun _ => .error (inStep.reject _)) fun _ => .ok rfl (onward (by simp))
    | _ => exact .error (inStep.reject _)

theorem natural_measureName : exchange.Natural exchange.token measureName := by
  intro tokens others inStep
  rcases inStep.cases with ⟨rfl, rfl⟩ | ⟨⟨kind, span, position, spelling⟩, rest, rest', rfl, rfl,
    onward⟩
  · exact .error (inStep.reject _)
  · cases kind with
    | bracketName name =>
      exact .ite Iff.rfl (fun _ => .error (inStep.reject _)) fun _ => .ok rfl (onward (by simp))
    | _ => exact .error (inStep.reject _)

theorem natural_format : exchange.Natural id format := by
  intro tokens others inStep
  rcases inStep.cases with ⟨rfl, rfl⟩ | ⟨⟨kind, span, position, spelling⟩, rest, rest', rfl, rfl,
    onward⟩
  · exact .error (inStep.reject _)
  · have unknown := inStep.reject (.unknownFormat spelling)
    cases kind with
    | identifier word =>
      simp only [format, Relocation.token]
      cases Format.ofWord? word with
      | some => exact .ok rfl (onward (by simp))
      | none => exact .error unknown
    | _ => exact .error unknown

/-- An attribute with a value is followed by what stands behind the value. -/
theorem InStep.tail_of_withValue? {tokens others : List Token}
    (inStep : exchange.InStep tokens others) {name : AttributeName} {assigned : Attribute}
    (typed : name.withValue? (nextKind tokens) = some assigned) :
    exchange.InStep tokens.tail others.tail := by
  rcases inStep.cases with ⟨rfl, rfl⟩ | ⟨token, rest, rest', rfl, rfl, onward⟩
  · exact inStep
  · refine onward fun isSign => ?_
    rw [nextKind, isSign] at typed
    cases name <;> cases typed

theorem moves_formatAttributeOf (property : CalculationProperty) (key : String) (keyToken : Token)
    {rest rest' : List Token} (inStep : exchange.InStep rest rest') :
    exchange.Moves id (formatAttributeOf property key keyToken rest)
      (formatAttributeOf property key (exchange.token keyToken) rest') := by
  refine .bind (exchange.natural_symbol (by decide) inStep)
    @fun value value' equals _ _ inStep => ?_
  have keyRefused (issue : Issue) : exchange.Refuses
      ⟨issue, some keyToken.position, value.length - 1, value.length⟩
      ⟨issue, some (exchange.position keyToken.position), value'.length - 1, value'.length⟩ :=
    ⟨rfl, rfl, inStep.length_pred_eq, inStep.length_eq, fun _ => rfl⟩
  simp only [inStep.nextKind_eq]
  cases AttributeName.ofWord? key with
  | none => exact .error (keyRefused _)
  | some name =>
    simp only
    cases typed : name.withValue? (nextKind value) with
    | none => exact .error (inStep.reject _)
    | some assigned =>
      exact .ite Iff.rfl (fun _ => .error (keyRefused _)) fun _ =>
        .ok rfl (inStep.tail_of_withValue? typed)

theorem natural_formatAttribute (property : CalculationProperty) :
    exchange.Natural id (formatAttribute property) := by
  intro tokens others inStep
  rcases inStep.cases with ⟨rfl, rfl⟩ | ⟨⟨kind, span, position, spelling⟩, rest, rest', rfl, rfl,
    onward⟩
  · exact .error (inStep.refuse _)
  · cases kind with
    | identifier key => exact moves_formatAttributeOf property key _ (onward (by simp))
    | _ => exact .error (inStep.refuse _)

theorem natural_calculationProperty : exchange.Natural id calculationProperty := by
  intro tokens others inStep
  refine .bind (exchange.natural_keyword _ inStep) fun first _ _ inStep => ?_
  refine .bind (exchange.natural_keyword _ inStep) fun second _ _ inStep => ?_
  refine .bind (natural_format inStep) fun format _ _ inStep => ?_
  have attributes (property : CalculationProperty) := @natural_formatAttribute exchange property
  refine .bind (natural_foldWhile attributes _ _ inStep) fun property _ _ inStep => ?_
  exact .ok rfl inStep

theorem natural_calculationProperty? : exchange.Natural id calculationProperty? := by
  intro tokens others inStep
  refine .ite (by rw [inStep.nextKind_eq]) (fun _ => ?_) fun _ => .ok rfl inStep
  exact .bind (natural_calculationProperty inStep) fun _ _ _ inStep => .ok rfl inStep

theorem moves_measureClause (start : Nat) {tokens others : List Token}
    (inStep : exchange.InStep tokens others) :
    exchange.Moves exchange.clause (measureClause start tokens)
      (measureClause (exchange.offset start) others) := by
  refine .bind (natural_measureTable inStep) fun table _ _ inStep => ?_
  refine .bind (natural_measureName inStep) fun name _ _ inStep => ?_
  refine .bind (exchange.natural_symbol (by decide) inStep) fun equals _ _ inStep => ?_
  refine .bind (natural_expressionOfLevel 0 inStep) fun body _ _ inStep => ?_
  refine .bind (natural_calculationProperty? inStep) fun property _ _ inStep => ?_
  exact .ok rfl inStep

/-! ## Queries and definitions -/

theorem natural_direction? : exchange.Natural id direction? := by
  intro tokens others inStep
  rcases inStep.cases with ⟨rfl, rfl⟩ | ⟨⟨kind, span, position, spelling⟩, rest, rest', rfl, rfl,
    onward⟩
  · exact .ok rfl inStep
  · cases kind with
    | keyword word =>
      have left := onward (by simp)
      cases word with
      | ascending | descending => exact .ok rfl left
      | _ => exact .ok rfl inStep
    | _ => exact .ok rfl inStep

theorem natural_sortKey : exchange.Natural exchange.sortKey Production.sortKey := by
  intro tokens others inStep
  refine .bind (natural_expressionOfLevel 0 inStep) fun value _ _ inStep => ?_
  refine .bind (natural_direction? inStep) fun direction _ _ inStep => ?_
  exact .ok rfl inStep

theorem natural_ordering : exchange.Natural (List.map exchange.sortKey) ordering := by
  intro tokens others inStep
  refine .ite (by rw [inStep.nextKind_eq]) (fun _ => ?_) fun _ => .ok rfl inStep
  refine .bind (exchange.natural_keyword _ inStep) fun first _ _ inStep => ?_
  refine .bind (exchange.natural_keyword _ inStep) fun second _ _ inStep => ?_
  refine .bind (natural_separated natural_sortKey inStep) fun keys _ _ inStep => ?_
  exact .ok rfl inStep

section Checks

variable {α : Type} {carry : α → α} {count : Nat} {tokens others rest rest' : List Token}
  {reading : Reading α count tokens} {reading' : Reading α count others}
  (moves : exchange.Moves carry reading reading') (inStep : exchange.InStep rest rest')
include moves inStep

/-- The end of a statement is found in the same place. -/
theorem Moves.atEnd : exchange.Moves carry (do statementEnd rest; reading)
    (do statementEnd rest'; reading') := by
  unfold statementEnd
  rw [inStep.nextKind_eq]
  by_cases ends : endsStatement (nextKind rest) = true
  · rw [if_pos ends, if_pos ends]
    exact moves
  · rw [if_neg ends, if_neg ends]
    exact .error (inStep.expected _)

/-- A check that goes wrong for the same tokens. -/
theorem Moves.unless {accepts : TokenKind → Bool} {expectation : Expectation} :
    exchange.Moves carry (do
      if !accepts (nextKind rest) then .error (expected rest expectation)
      reading) (do
      if !accepts (nextKind rest') then .error (expected rest' expectation)
      reading') := by
  rw [inStep.nextKind_eq]
  by_cases accepted : accepts (nextKind rest) = true
  · simpa [accepted] using moves
  · simp only [accepted]
    exact .error (inStep.expected _)

end Checks

theorem natural_query : exchange.Natural exchange.query Production.query := by
  intro tokens others inStep
  refine .bind (exchange.natural_keyword _ inStep) fun first _ _ inStep => ?_
  refine .bind (natural_expressionOfLevel 0 inStep) fun table _ _ inStep => ?_
  refine .bind (natural_ordering inStep) fun keys _ _ inStep => ?_
  exact .atEnd (.ok rfl inStep) inStep

theorem natural_definition : exchange.Natural exchange.definition Production.definition := by
  intro tokens others inStep
  refine .ite (by rw [inStep.nextKind_eq]) (fun _ => ?_) fun _ => ?_
  · refine .bind (exchange.natural_keyword _ inStep) fun word _ _ inStep => ?_
    refine .bind (moves_measureClause word.span.start inStep) fun clause _ _ inStep => ?_
    exact .ok rfl inStep
  · refine .bind (natural_binding natural_expressionOfLevel inStep) fun binding _ _ inStep => ?_
    exact .ok rfl inStep

theorem natural_block : exchange.Natural
    (fun parts => (parts.1.map exchange.definition, exchange.query parts.2)) block := by
  intro tokens others inStep
  refine .unless (.bind (natural_manyWhile natural_definition _ inStep)
    fun definitions _ _ inStep => ?_) inStep
  refine .unless (.bind (natural_query inStep) fun query _ _ inStep => ?_) inStep
  exact .ok rfl inStep

/-! ## The choice between them -/

section Choice

variable {rest rest' : List Token} (inStep : exchange.InStep rest rest')
include inStep

theorem moves_creation (create : Token) :
    exchange.Moves exchange.statement (creation create rest)
      (creation (exchange.token create) rest') := by
  unfold creation
  rw [inStep.nextKind_eq]
  split
  · refine .bind (exchange.natural_keyword _ inStep) fun word _ _ inStep => ?_
    refine .bind (moves_measureClause create.span.start inStep) fun clause _ _ inStep => ?_
    exact .atEnd (.ok rfl inStep) inStep
  · exact .ite Iff.rfl (fun _ => .error (inStep.refuse _)) fun _ => .ok rfl inStep
  · exact .ok rfl inStep

/-- **Statements are read in the same way everywhere**, and whatever stands behind a semicolon
behind them. -/
theorem moves_statement (first : Token) :
    exchange.Moves exchange.statement (Production.statement first rest)
      (Production.statement (exchange.token first) rest') := by
  unfold Production.statement
  rw [Relocation.kind_token]
  split
  · exact moves_creation inStep first
  · refine .bind (natural_block inStep) fun block _ _ inStep => ?_
    exact .ok rfl inStep
  · refine .bind (natural_query (.step first inStep)) fun query _ _ inStep => ?_
    exact .ok rfl inStep
  · refine .bind (natural_expressionOfLevel 0 inStep) fun value _ _ inStep => ?_
    exact .atEnd (.ok rfl inStep) inStep
  · exact .ok rfl inStep

end Choice

end Exchange

namespace Relocation

/-- **Statements are read in the same way everywhere.** -/
theorem moves_statement (place : Relocation) (first : Token) (rest : List Token) :
    place.Moves place.statement (Production.statement first rest)
      (Production.statement (place.token first) (rest.map place.token)) :=
  @moves_of_toEnd _ _ _ _ (first :: rest) _ _
    (Exchange.moves_statement (place.inStep_map rest) first)

/-! ## What a refusal is about -/

/-- The relocation that moves every position but the given ones. -/
def fixing (positions : List Position) : Relocation where
  offset := id
  position place := if place ∈ positions then place else ⟨place.offset, place.line + 1, place.column⟩
  monotone before := before
  consistent place := by
    split
    · rfl
    · rfl

theorem fixing_eq_self_iff {positions : List Position} {position : Position} :
    (fixing positions).position position = position ↔ position ∈ positions := by
  obtain ⟨offset, line, column⟩ := position
  simp only [fixing]
  split
  · next fixed => simp [fixed]
  · next moves => simp [moves]

theorem token_fixing {tokens : List Token} {token : Token} (member : token ∈ tokens) :
    (fixing (tokens.map (·.position))).token token = token := by
  have isPosition : token.position ∈ tokens.map (·.position) :=
    List.mem_map.mpr ⟨token, member, rfl⟩
  have fixed := fixing_eq_self_iff.mpr isPosition
  simp only [Relocation.token, fixed]
  rfl

end Relocation

/-- **A refusal is about one of the tokens of the statement**, or about the end of the input. -/
theorem Production.position_of_refused {first : Token} {rest : List Token} {refusal : Refusal}
    {position : Position} (refused : Production.statement first rest = .error refusal)
    (about : refusal.position = some position) :
    position ∈ (first :: rest).map (·.position) := by
  let place := Relocation.fixing ((first :: rest).map (·.position))
  have sameFirst : place.token first = first := Relocation.token_fixing (.head _)
  have sameRest : rest.map place.token = rest := by
    have same : rest.map place.token = rest.map id :=
      List.map_congr_left fun token member => Relocation.token_fixing (.tail _ member)
    rw [same, List.map_id]
  have unmoved {first' : Token} {rest' : List Token} {refusal' : Refusal}
      (refused' : Production.statement first' rest' = .error refusal') (firstSame : first' = first)
      (restSame : rest' = rest) : refusal = refusal' := by
    subst firstSame restSame
    exact Except.error.inj (refused.symm.trans refused')
  -- Moving all other places moves nothing that is read, so the place of the refusal stays.
  have moves := (@Relocation.moves_statement place first rest).refuses refused
  have same : refusal.position = refusal.position.map place.position :=
    congrArg Refusal.position (unmoved moves sameFirst sameRest)
  rw [about] at same
  exact Relocation.fixing_eq_self_iff.mp (Option.some.inj same).symm

end DaxScript
