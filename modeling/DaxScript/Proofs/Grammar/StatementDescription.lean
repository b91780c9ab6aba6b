import DaxScript.Proofs.Grammar.StatementRule

/-!
# The rules for statements describe their productions

The productions of the parts of statements read what the rules say, each production what the rule
of the same name says.  A statement is either read to its end, and then by its rule, or only
recognised by its first token (`yields_statement`, `yields_statement_of_rule`).
-/

set_option autoImplicit false

namespace DaxScript

open Production

variable {tokens rest : List Token}

theorem describes_expression : Describes (.ExpressionOfLevel 0) Production.expression :=
  describes_expressionOfLevel 0

/-! ## Checks in between -/

theorem yields_atEnd_iff {α : Type} {count : Nat} {reading : Reading α count tokens} {value : α}
    {others : List Token} :
    Yields (do statementEnd others; reading) value rest ↔
      endsStatement (nextKind others) = true ∧ Yields reading value rest := by
  unfold statementEnd
  by_cases ends : endsStatement (nextKind others) = true
  · rw [if_pos ends]
    exact ⟨fun reading => ⟨ends, reading⟩, fun both => both.2⟩
  · rw [if_neg ends]
    exact ⟨fun reading => absurd reading Yields.not_error, fun both => absurd both.1 ends⟩

theorem yields_unless_iff {α : Type} {count : Nat} {reading : Reading α count tokens} {value : α}
    {refused : Bool} {refusal : Refusal} :
    Yields ((do
      if refused then .error refusal
      reading) : Reading α count tokens) value rest ↔
      refused = false ∧ Yields reading value rest := by
  cases refused with
  | false => exact ⟨fun reading => ⟨rfl, reading⟩, fun both => both.2⟩
  | true => exact ⟨fun reading => absurd reading Yields.not_error, fun both => absurd both.1 (by simp)⟩

/-! ## Measure clauses -/

theorem yields_measureTable_iff {token : Token} :
    Yields (measureTable tokens) token rest ↔
      tokens = token :: rest ∧ token.kind.namesTable = true := by
  constructor
  · intro reading
    unfold measureTable at reading
    split at reading
    · exact absurd reading Yields.not_error
    · next first others =>
      split at reading
      · next named =>
        obtain ⟨rfl, rfl⟩ := Yields.ok_iff.mp reading
        exact ⟨rfl, by simp [named, TokenKind.namesTable]⟩
      · next named =>
        obtain ⟨rfl, rfl⟩ := Yields.ok_iff.mp reading
        exact ⟨rfl, by simp [named, TokenKind.namesTable]⟩
      · next named =>
        split at reading
        · exact absurd reading Yields.not_error
        · next filled =>
          obtain ⟨rfl, rfl⟩ := Yields.ok_iff.mp reading
          exact ⟨rfl, by simpa [named, TokenKind.namesTable] using filled⟩
      · exact absurd reading Yields.not_error
  · rintro ⟨rfl, named⟩
    obtain ⟨kind, span, position, spelling⟩ := token
    cases kind with
    | identifier => exact Yields.of_ok
    | keyword => exact Yields.of_ok
    | quotedName name =>
      have filled : ¬name.isEmpty = true := by simpa [TokenKind.namesTable] using named
      simp only [measureTable, if_neg filled]
      exact Yields.of_ok
    | _ => cases named

theorem yields_measureName_iff {token : Token} :
    Yields (measureName tokens) token rest ↔
      tokens = token :: rest ∧ token.kind.namesMeasure = true := by
  constructor
  · intro reading
    unfold measureName at reading
    split at reading
    · exact absurd reading Yields.not_error
    · next first others =>
      split at reading
      · next named =>
        split at reading
        · exact absurd reading Yields.not_error
        · next filled =>
          obtain ⟨rfl, rfl⟩ := Yields.ok_iff.mp reading
          exact ⟨rfl, by simpa [named, TokenKind.namesMeasure] using filled⟩
      · exact absurd reading Yields.not_error
  · rintro ⟨rfl, named⟩
    obtain ⟨kind, span, position, spelling⟩ := token
    cases kind with
    | bracketName name =>
      have filled : ¬name.isEmpty = true := by simpa [TokenKind.namesMeasure] using named
      simp only [measureName, if_neg filled]
      exact Yields.of_ok
    | _ => cases named

theorem yields_format_iff {named : Format} :
    Yields (format tokens) named rest ↔
      ∃ token word, tokens = token :: rest ∧ token.kind = .identifier word ∧
        Format.ofWord? word = some named := by
  constructor
  · intro reading
    unfold format at reading
    split at reading
    · exact absurd reading Yields.not_error
    · next token others =>
      simp only at reading
      split at reading
      · next known =>
        obtain ⟨rfl, rfl⟩ := Yields.ok_iff.mp reading
        split at known
        · next word kind => exact ⟨token, word, rfl, kind, known⟩
        · cases known
      · exact absurd reading Yields.not_error
  · rintro ⟨token, word, rfl, kind, known⟩
    simp only [format, kind, known]
    exact Yields.of_ok

theorem describes_formatAttribute (property : CalculationProperty) :
    Describes (.FormatAttribute property) (formatAttribute property) where
  sound {tokens result rest} reading := by
    unfold formatAttribute at reading
    split at reading
    · exact absurd reading Yields.not_error
    · next token others =>
      split at reading
      · next word keyed =>
        obtain ⟨equals, left, _, first, reading⟩ := reading.bind
        obtain ⟨rfl, sign⟩ := yields_symbol_iff.mp first
        simp only at reading
        split at reading
        · exact absurd reading Yields.not_error
        · next name known =>
          split at reading
          · exact absurd reading Yields.not_error
          · next assigned typed =>
            split at reading
            · exact absurd reading Yields.not_error
            · next new =>
              obtain ⟨rfl, rfl⟩ := Yields.ok_iff.mp reading
              cases left with
              | nil => cases name <;> cases typed
              | cons value left =>
                exact ⟨[token, equals, value], rfl,
                  .intro keyed sign known typed (Bool.eq_false_iff.mpr new)⟩
      · exact absurd reading Yields.not_error
  complete {used result rest} reading := by
    cases reading with
    | intro keyed sign known typed new =>
      simp only [formatAttribute, List.cons_append, List.nil_append, keyed]
      refine (yields_symbol sign).andThen fun _ => ?_
      simp only [known, nextKind_cons, typed, new]
      exact Yields.of_ok

theorem describes_calculationProperty : Describes .Formatting calculationProperty where
  sound reading := by
    obtain ⟨first, _, _, step₁, reading⟩ := reading.bind
    obtain ⟨second, _, _, step₂, reading⟩ := reading.bind
    obtain ⟨named, _, _, step₃, reading⟩ := reading.bind
    obtain ⟨property, _, _, step₄, reading⟩ := reading.bind
    obtain ⟨rfl, rfl⟩ := Yields.ok_iff.mp reading
    obtain ⟨rfl, opens⟩ := yields_keyword_iff.mp step₁
    obtain ⟨rfl, goesOn⟩ := yields_keyword_iff.mp step₂
    obtain ⟨token, word, rfl, names, known⟩ := yields_format_iff.mp step₃
    obtain ⟨used, rfl, attributes⟩ := (describes_foldWhile describes_formatAttribute _).sound step₄
    exact ⟨first :: second :: token :: used, rfl, .intro opens goesOn names known attributes⟩
  complete reading := by
    cases reading with
    | intro opens goesOn names known attributes =>
      refine (yields_keyword opens).andThen fun _ => ?_
      refine (yields_keyword goesOn).andThen fun _ => ?_
      refine (yields_format_iff.mpr ⟨_, _, rfl, names, known⟩).andThen fun _ => ?_
      refine ((describes_foldWhile describes_formatAttribute _).complete attributes).andThen
        fun _ => ?_
      exact Yields.of_ok

theorem describes_calculationProperty? : Describes .MaybeFormatting calculationProperty? where
  sound {tokens property? rest} reading := by
    unfold calculationProperty? at reading
    split at reading
    · obtain ⟨property, _, _, step, reading⟩ := reading.bind
      obtain ⟨rfl, rfl⟩ := Yields.ok_iff.mp reading
      obtain ⟨used, rfl, read⟩ := describes_calculationProperty.sound step
      exact ⟨used, rfl, .present read⟩
    · next absent =>
      obtain ⟨rfl, rfl⟩ := Yields.ok_iff.mp reading
      exact ⟨[], rfl, .absent (Bool.eq_false_iff.mpr absent)⟩
  complete {used property? rest} reading := by
    unfold calculationProperty?
    cases reading with
    | absent absent =>
      rw [if_neg (by simp [absent])]
      exact Yields.of_ok
    | present reading =>
      have opens : isKeyword .calculation (nextKind (used ++ rest)) = true := by
        cases reading with
        | intro opens => simp [isKeyword, opens]
      rw [if_pos opens]
      refine (describes_calculationProperty.complete reading).andThen fun _ => ?_
      exact Yields.of_ok

theorem describes_measureClause (start : Nat) :
    Describes (.MeasureClause start) (measureClause start) where
  sound reading := by
    obtain ⟨table, _, _, step₁, reading⟩ := reading.bind
    obtain ⟨name, _, _, step₂, reading⟩ := reading.bind
    obtain ⟨equals, _, _, step₃, reading⟩ := reading.bind
    obtain ⟨body, _, _, step₄, reading⟩ := reading.bind
    obtain ⟨property, _, _, step₅, reading⟩ := reading.bind
    obtain ⟨rfl, rfl⟩ := Yields.ok_iff.mp reading
    obtain ⟨rfl, tableNamed⟩ := yields_measureTable_iff.mp step₁
    obtain ⟨rfl, measureNamed⟩ := yields_measureName_iff.mp step₂
    obtain ⟨rfl, sign⟩ := yields_symbol_iff.mp step₃
    obtain ⟨used, rfl, read⟩ := describes_expression.sound step₄
    obtain ⟨later, rfl, formatted⟩ := describes_calculationProperty?.sound step₅
    rw [nextKind_append] at read
    exact ⟨table :: name :: equals :: (used ++ later), by simp,
      .intro tableNamed measureNamed sign read formatted⟩
  complete reading := by
    cases reading with
    | intro tableNamed measureNamed sign read formatted =>
      rw [← nextKind_append] at read
      rw [List.cons_append, List.cons_append, List.cons_append, List.append_assoc]
      refine (yields_measureTable_iff.mpr ⟨rfl, tableNamed⟩).andThen fun _ => ?_
      refine (yields_measureName_iff.mpr ⟨rfl, measureNamed⟩).andThen fun _ => ?_
      refine (yields_symbol sign).andThen fun _ => ?_
      refine (describes_expression.complete read).andThen fun _ => ?_
      refine (describes_calculationProperty?.complete formatted).andThen fun _ => ?_
      exact Yields.of_ok

/-! ## Queries -/

/-- The direction of a sort key is read off the next token alone. -/
theorem yields_direction?_iff {direction? : Option Direction} :
    Yields (Production.direction? tokens) direction? rest ↔
      (Direction.ofKind? (nextKind tokens) = none ∧ direction? = none ∧ rest = tokens) ∨
      ∃ token direction, tokens = token :: rest ∧ direction? = some direction ∧
        Direction.ofKind? token.kind = some direction := by
  cases tokens with
  | nil => simp [Production.direction?, Yields.ok_iff, Direction.ofKind?, eq_comm]
  | cons token others =>
    obtain ⟨kind, span, position, spelling⟩ := token
    cases kind with
    | keyword word =>
      cases word <;> simp [Production.direction?, Yields.ok_iff, Direction.ofKind?, eq_comm, and_comm]
    | _ => simp [Production.direction?, Yields.ok_iff, Direction.ofKind?, eq_comm]

theorem describes_sortKey : Describes .SortKey sortKey where
  sound reading := by
    obtain ⟨value, _, _, step₁, reading⟩ := reading.bind
    obtain ⟨direction, _, _, step₂, reading⟩ := reading.bind
    obtain ⟨rfl, rfl⟩ := Yields.ok_iff.mp reading
    obtain ⟨used, rfl, read⟩ := describes_expression.sound step₁
    rcases yields_direction?_iff.mp step₂ with
      ⟨undirected, rfl, rfl⟩ | ⟨token, direction, rfl, rfl, directs⟩
    · exact ⟨used, rfl, .plain read undirected⟩
    · exact ⟨used ++ [token], by simp, .directed read directs⟩
  complete reading := by
    cases reading with
    | plain reading undirected =>
      refine (describes_expression.complete reading).andThen fun _ => ?_
      refine (yields_direction?_iff.mpr (.inl ⟨undirected, rfl, rfl⟩)).andThen fun _ => ?_
      exact Yields.of_ok
    | directed reading directs =>
      rw [List.append_assoc]
      refine (describes_expression.complete reading).andThen fun _ => ?_
      refine (yields_direction?_iff.mpr (.inr ⟨_, _, rfl, rfl, directs⟩)).andThen fun _ => ?_
      exact Yields.of_ok

theorem describes_ordering : Describes .Ordering ordering where
  sound {tokens keys rest} reading := by
    unfold ordering at reading
    split at reading
    · obtain ⟨first, _, _, step₁, reading⟩ := reading.bind
      obtain ⟨second, _, _, step₂, reading⟩ := reading.bind
      obtain ⟨keys, _, _, step₃, reading⟩ := reading.bind
      obtain ⟨rfl, rfl⟩ := Yields.ok_iff.mp reading
      obtain ⟨rfl, opens⟩ := yields_keyword_iff.mp step₁
      obtain ⟨rfl, goesOn⟩ := yields_keyword_iff.mp step₂
      obtain ⟨used, rfl, items⟩ := (describes_separated describes_sortKey).sound step₃
      exact ⟨first :: second :: used, rfl, .present opens goesOn items⟩
    · next absent =>
      obtain ⟨rfl, rfl⟩ := Yields.ok_iff.mp reading
      exact ⟨[], rfl, .absent (Bool.eq_false_iff.mpr absent)⟩
  complete {used keys rest} reading := by
    unfold ordering
    cases reading with
    | absent absent =>
      rw [if_neg (by simp [absent])]
      exact Yields.of_ok
    | present opens goesOn items =>
      rw [if_pos (by simp [isKeyword, opens])]
      refine (yields_keyword opens).andThen fun _ => ?_
      refine (yields_keyword goesOn).andThen fun _ => ?_
      refine ((describes_separated describes_sortKey).complete items).andThen fun _ => ?_
      exact Yields.of_ok

theorem describes_query : Describes .Query Production.query where
  sound reading := by
    obtain ⟨word, _, _, step₁, reading⟩ := reading.bind
    obtain ⟨table, _, _, step₂, reading⟩ := reading.bind
    obtain ⟨keys, _, _, step₃, reading⟩ := reading.bind
    obtain ⟨ends, reading⟩ := yields_atEnd_iff.mp reading
    obtain ⟨rfl, rfl⟩ := Yields.ok_iff.mp reading
    obtain ⟨rfl, opens⟩ := yields_keyword_iff.mp step₁
    obtain ⟨used, rfl, read⟩ := describes_expression.sound step₂
    obtain ⟨later, rfl, ordered⟩ := describes_ordering.sound step₃
    rw [nextKind_append] at read
    exact ⟨word :: (used ++ later), by simp, .intro opens read ordered ends⟩
  complete reading := by
    cases reading with
    | intro opens read ordered ends =>
      rw [← nextKind_append] at read
      rw [List.cons_append, List.append_assoc]
      refine (yields_keyword opens).andThen fun _ => ?_
      refine (describes_expression.complete read).andThen fun _ => ?_
      refine (describes_ordering.complete ordered).andThen fun _ => ?_
      exact yields_atEnd_iff.mpr ⟨ends, Yields.of_ok⟩

/-! ## Blocks -/

theorem describes_definition : Describes .Definition Production.definition where
  sound {tokens definition rest} reading := by
    unfold Production.definition at reading
    split at reading
    · obtain ⟨word, _, _, step₁, reading⟩ := reading.bind
      obtain ⟨clause, _, _, step₂, reading⟩ := reading.bind
      obtain ⟨rfl, rfl⟩ := Yields.ok_iff.mp reading
      obtain ⟨rfl, opens⟩ := yields_keyword_iff.mp step₁
      obtain ⟨used, rfl, read⟩ := (describes_measureClause _).sound step₂
      exact ⟨word :: used, rfl, .measure opens read⟩
    · obtain ⟨part, _, _, step, reading⟩ := reading.bind
      obtain ⟨rfl, rfl⟩ := Yields.ok_iff.mp reading
      obtain ⟨used, rfl, read⟩ := (describes_binding describes_expressionOfLevel).sound step
      exact ⟨used, rfl, .binding read⟩
  complete {used definition rest} reading := by
    unfold Production.definition
    cases reading with
    | measure opens reading =>
      rw [if_pos (by simp [isKeyword, opens])]
      refine (yields_keyword opens).andThen fun _ => ?_
      refine ((describes_measureClause _).complete reading).andThen fun _ => ?_
      exact Yields.of_ok
    | binding reading =>
      have isBinding : ¬isKeyword .measure (nextKind (used ++ rest)) = true := by
        cases reading with
        | intro opens => simp [isKeyword, opens]
      rw [if_neg isBinding]
      refine ((describes_binding describes_expressionOfLevel).complete reading).andThen fun _ => ?_
      exact Yields.of_ok

/-- A block is read when there are definitions, at least one, and a query behind them. -/
theorem yields_block_iff {definitions : List Definition} {query : Query} :
    Yields (block tokens) (definitions, query) rest ↔
      ∃ used later, tokens = used ++ (later ++ rest) ∧ definitions ≠ [] ∧
        Rule.Repeated startsDefinition .Definition used definitions
          (kindAfter later (nextKind rest)) ∧ Rule.Query later query (nextKind rest) := by
  constructor
  · intro reading
    obtain ⟨starts, reading⟩ := yields_unless_iff.mp reading
    obtain ⟨values, _, _, step₁, reading⟩ := reading.bind
    obtain ⟨_, reading⟩ := yields_unless_iff.mp reading
    obtain ⟨asked, _, _, step₂, reading⟩ := reading.bind
    obtain ⟨same, rfl⟩ := Yields.ok_iff.mp reading
    obtain ⟨rfl, rfl⟩ := Prod.mk.inj same
    obtain ⟨used, rfl, items⟩ := (describes_manyWhile describes_definition).sound step₁
    obtain ⟨later, rfl, read⟩ := describes_query.sound step₂
    rw [nextKind_append] at items
    refine ⟨used, later, rfl, ?_, items, read⟩
    rintro rfl
    cases items with
    | done stops => simp [stops] at starts
  · rintro ⟨used, later, rfl, some, items, read⟩
    have starts : (!startsDefinition (nextKind (used ++ (later ++ rest)))) = false := by
      cases items with
      | done => exact absurd rfl some
      | more goesOn => simpa using goesOn
    have evaluates : (!isKeyword .evaluate (nextKind (later ++ rest))) = false := by
      cases read with
      | intro opens => simp [isKeyword, opens]
    rw [← nextKind_append] at items
    refine yields_unless_iff.mpr ⟨starts, ?_⟩
    refine ((describes_manyWhile describes_definition).complete items).andThen fun _ => ?_
    refine yields_unless_iff.mpr ⟨evaluates, ?_⟩
    refine (describes_query.complete read).andThen fun _ => ?_
    exact Yields.of_ok

/-! ## Statements -/

/-- What a statement is recognised as that is passed over, from its first token and the kind of
the next one. -/
def recognised? (first : Token) (next : TokenKind) : Option Statement :=
  match first.kind with
  | .keyword .define | .keyword .evaluate | .symbol .equal => none
  | .keyword .create =>
    match next with
    | .keyword .measure => none
    | .identifier word =>
      if sameIgnoringCase word keyPerformanceIndicatorWord then none
      else some (.createOther first (.identifier word))
    | object => some (.createOther first object)
  | _ => some (.unsupported first)

theorem statement_of_recognised? {first : Token} {statement : Statement}
    (recognised : recognised? first (nextKind rest) = some statement) :
    Production.statement first rest = .ok (.single statement first rest) := by
  obtain ⟨kind, span, position, spelling⟩ := first
  cases kind with
  | keyword word =>
    cases word with
    | define => cases recognised
    | evaluate => cases recognised
    | create =>
      change creation _ rest = _
      unfold creation
      simp only [recognised?] at recognised
      generalize nextKind rest = next at recognised ⊢
      cases next with
      | keyword word =>
        cases word with
        | measure => cases recognised
        | _ =>
          cases recognised
          rfl
      | identifier word =>
        by_cases indicator : sameIgnoringCase word keyPerformanceIndicatorWord = true
        · simp [indicator] at recognised
        · simp only [indicator] at recognised ⊢
          cases recognised
          rfl
      | _ =>
        cases recognised
        rfl
    | _ =>
      cases recognised
      rfl
  | symbol sign =>
    cases sign with
    | equal => cases recognised
    | _ =>
      cases recognised
      rfl
  | _ =>
    cases recognised
    rfl

/-- **A statement is recognised or read to its end.** -/
theorem yields_statement {first : Token} {statement : Statement} {left : List Token}
    (reading : Yields (Production.statement first rest) statement left) :
    (recognised? first (nextKind rest) = some statement ∧ left = rest) ∨
      ∃ used, first :: rest = used ++ left ∧ Rule.Statement used statement (nextKind left) := by
  cases recognised : recognised? first (nextKind rest) with
  | some other =>
    rw [statement_of_recognised? recognised] at reading
    obtain ⟨rfl, rfl⟩ := Yields.ok_iff.mp reading
    exact .inl ⟨rfl, rfl⟩
  | none =>
    refine .inr ?_
    unfold Production.statement at reading
    unfold recognised? at recognised
    split at reading
    · next creates =>
      simp only [creates] at recognised
      unfold creation at reading
      split at reading
      · obtain ⟨word, _, _, step₁, reading⟩ := reading.bind
        obtain ⟨clause, _, _, step₂, reading⟩ := reading.bind
        obtain ⟨ends, reading⟩ := yields_atEnd_iff.mp reading
        obtain ⟨rfl, rfl⟩ := Yields.ok_iff.mp reading
        obtain ⟨rfl, opens⟩ := yields_keyword_iff.mp step₁
        obtain ⟨used, rfl, read⟩ := (describes_measureClause _).sound step₂
        exact ⟨first :: word :: used, rfl, .createMeasure creates opens read ends⟩
      · next word next =>
        split at reading
        · exact absurd reading Yields.not_error
        · next other => simp [next, other] at recognised
      · next notMeasure notWord =>
        split at recognised
        · next measure => exact absurd measure notMeasure
        · next word isWord => exact absurd isWord (notWord word)
        · cases recognised
    · next opens =>
      obtain ⟨parts, _, _, step, reading⟩ := reading.bind
      obtain ⟨rfl, rfl⟩ := Yields.ok_iff.mp reading
      obtain ⟨used, later, rfl, some, items, read⟩ := yields_block_iff.mp step
      exact ⟨first :: (used ++ later), by simp, .define opens items some read⟩
    · obtain ⟨query, _, _, step, reading⟩ := reading.bind
      obtain ⟨rfl, rfl⟩ := Yields.ok_iff.mp reading
      obtain ⟨used, same, read⟩ := describes_query.sound step
      exact ⟨used, same, .evaluate read⟩
    · next sign =>
      obtain ⟨value, _, _, step, reading⟩ := reading.bind
      obtain ⟨ends, reading⟩ := yields_atEnd_iff.mp reading
      obtain ⟨rfl, rfl⟩ := Yields.ok_iff.mp reading
      obtain ⟨used, rfl, read⟩ := describes_expression.sound step
      exact ⟨first :: used, rfl, .expression sign read ends⟩
    · next notCreate notDefine notEvaluate notEqual =>
      split at recognised
      · next define => exact absurd define notDefine
      · next evaluate => exact absurd evaluate notEvaluate
      · next equal => exact absurd equal notEqual
      · next create => exact absurd create notCreate
      · cases recognised

/-- A statement that has a reading is read. -/
theorem yields_statement_of_rule {first : Token} {statement : Statement} {used left : List Token}
    (same : first :: rest = used ++ left)
    (reading : Rule.Statement used statement (nextKind left)) :
    Yields (Production.statement first rest) statement left := by
  cases reading with
  | createMeasure creates opens reading ends =>
    obtain ⟨rfl, rfl⟩ := List.cons.inj same
    simp only [Production.statement, creates, creation]
    simp only [List.append_eq, List.cons_append, nextKind_cons, opens]
    refine (yields_keyword opens).andThen fun _ => ?_
    refine ((describes_measureClause _).complete reading).andThen fun _ => ?_
    exact yields_atEnd_iff.mpr ⟨ends, Yields.of_ok⟩
  | define opens items some reading =>
    obtain ⟨rfl, rfl⟩ := List.cons.inj same
    simp only [Production.statement, opens]
    have read := yields_block_iff.mpr ⟨_, _, List.append_assoc _ _ _, some, items, reading⟩
    exact read.andThen fun _ => Yields.of_ok
  | evaluate reading =>
    have evaluates : first.kind = .keyword .evaluate := by
      cases reading with
      | intro opens =>
        obtain ⟨rfl, _⟩ := List.cons.inj same
        exact opens
    have read := describes_query.complete reading
    rw [← same] at read
    simp only [Production.statement, evaluates]
    exact read.andThen fun _ => Yields.of_ok
  | expression sign reading ends =>
    obtain ⟨rfl, rfl⟩ := List.cons.inj same
    simp only [Production.statement, sign]
    refine (describes_expression.complete reading).andThen fun _ => ?_
    exact yields_atEnd_iff.mpr ⟨ends, Yields.of_ok⟩

end DaxScript
