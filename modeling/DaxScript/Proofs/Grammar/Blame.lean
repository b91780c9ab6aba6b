import DaxScript.Proofs.Grammar.OperandDescription

/-!
# What a refusal blames

A refusal is about one of the tokens that were to be read, or about the end of the input, and
reading goes on at that token or behind it (`Refusal.Blames`).  What the refusal quotes is that
token (`Issue.IsAbout`).  A production leaves the last of the tokens that it is given or blames one
of them (`Production.Within`), and productions one after the other do so as well (`Within.bind`),
since what one leaves is what the next one is given.

The first token of a statement is never blamed: it decides what is to be read behind it
(`Production.within_statement`).
-/

set_option autoImplicit false

namespace DaxScript

/-- What an issue quotes is the first of some tokens. -/
def Issue.IsAbout (blamed : List Token) : Issue → Prop
  | unexpected found _ => found = nextKind blamed
  | unknownColumnType spelling | unknownFormat spelling =>
    spelling = blamed.head?.elim "" (·.spelling)
  | unknownAttribute word =>
    nextKind blamed = .identifier word ∨ word = blamed.head?.elim "" (·.spelling)
  | duplicateAttribute word => nextKind blamed = .identifier word
  | _ => True

/-- A refusal is about one of the tokens or about the end of the input, and leaves no more than
what begins there. -/
def Refusal.Blames (refusal : Refusal) (tokens : List Token) : Prop :=
  ∃ blamed, blamed <:+ tokens ∧ refusal.position = nextPosition? blamed ∧
    refusal.unread ≤ blamed.length ∧ refusal.issue.IsAbout blamed

namespace Production

/-- A reading leaves the last of some tokens or blames one of them. -/
inductive Within (whole : List Token) {α : Type} {count : Nat} {tokens : List Token} :
    Reading α count tokens → Prop where
  | ok {parsed : Parsed α count tokens} (left : parsed.rest <:+ whole) : Within whole (.ok parsed)
  | error {refusal : Refusal} (blames : refusal.Blames whole) : Within whole (.error refusal)

/-- A production leaves the last of its tokens or blames one of them. -/
def Local {α : Type} {count : Nat} (production : Production α count) : Prop :=
  ∀ ⦃whole tokens⦄, tokens <:+ whole → Within whole (production tokens)

section Readings

variable {α β : Type} {count : Nat} {whole tokens : List Token}

/-- Readings one after the other. -/
theorem Within.bind {between : Nat} {earlier : List Token} {first : Reading β between earlier}
    {further : Parsed β between earlier → Reading α count tokens} (within : Within whole first)
    (later : ∀ {rest} value fits, rest <:+ whole → Within whole (further ⟨value, rest, fits⟩)) :
    Within whole (first >>= further) := by
  cases within with
  | error blames => exact .error blames
  | ok left => exact later _ _ left

theorem Within.ite {condition : Prop} [Decidable condition]
    {holds otherwise : Reading α count tokens} (ifHolds : condition → Within whole holds)
    (ifNot : ¬condition → Within whole otherwise) :
    Within whole (if condition then holds else otherwise) := by
  split
  · exact ifHolds ‹_›
  · exact ifNot ‹_›

end Readings

/-! ## Refusals and single tokens -/

theorem left_of_cons {whole rest : List Token} {token : Token} (part : token :: rest <:+ whole) :
    rest <:+ whole :=
  (List.suffix_cons token rest).trans part

section Refusals

variable {whole tokens : List Token} (part : tokens <:+ whole)
include part

/-- The next token is blamed. -/
theorem blames_next {refusal : Refusal} (position : refusal.position = nextPosition? tokens)
    (unread : refusal.unread ≤ tokens.length) (about : refusal.issue.IsAbout tokens) :
    refusal.Blames whole :=
  ⟨tokens, part, position, unread, about⟩

theorem blames_refuse {issue : Issue} (about : issue.IsAbout tokens) :
    (refuse tokens issue).Blames whole :=
  blames_next part rfl (Nat.le_refl _) about

theorem blames_expected (expectation : Expectation) :
    (expected tokens expectation).Blames whole :=
  blames_refuse part rfl

theorem blames_reject {issue : Issue} (about : issue.IsAbout tokens) :
    (reject tokens issue).Blames whole :=
  blames_next part rfl (Nat.sub_le _ _) about

theorem blames_noOperand : (noOperand tokens).Blames whole :=
  blames_next part rfl (Nat.le_refl _) rfl

end Refusals

theorem local_symbol (sign : Symbol) : Local (symbol sign) := by
  intro whole tokens part
  cases tokens with
  | nil => exact .error (blames_expected part _)
  | cons token rest =>
    exact .ite (fun _ => .ok (left_of_cons part)) fun _ => .error (blames_expected part _)

theorem local_keyword (word : Keyword) : Local (keyword word) := by
  intro whole tokens part
  cases tokens with
  | nil => exact .error (blames_expected part _)
  | cons token rest =>
    exact .ite (fun _ => .ok (left_of_cons part)) fun _ => .error (blames_expected part _)

/-! ## Repetition -/

section Repetition

variable {α : Type} {count : Nat}

theorem local_manyWhile {item : Production α 1} (isLocal : Local item)
    (continues : TokenKind → Bool) : Local (manyWhile continues item) := by
  intro whole tokens part
  induction counted : tokens.length using Nat.strongRecOn generalizing tokens with
  | ind length ih =>
    rw [manyWhile]
    refine .ite (fun _ => ?_) fun _ => .ok part
    refine .bind (isLocal part) @fun rest first fits part => ?_
    have shorter : rest.length < length := by omega
    exact .bind (ih _ shorter part rfl) fun _ _ part => .ok part

theorem local_foldWhile {step : α → Production α 1} (isLocal : ∀ state, Local (step state))
    (continues : TokenKind → Bool) (state : α) : Local (foldWhile continues step state) := by
  intro whole tokens part
  induction counted : tokens.length using Nat.strongRecOn generalizing tokens state with
  | ind length ih =>
    rw [foldWhile]
    refine .ite (fun _ => ?_) fun _ => .ok part
    refine .bind (isLocal state part) @fun rest next fits part => ?_
    have shorter : rest.length < length := by omega
    exact .bind (ih _ shorter next part rfl) fun _ _ part => .ok part

theorem local_weaken {item : Production α count} (isLocal : Local item) : Local (weaken item) :=
  fun _ _ part => .bind (isLocal part) fun _ _ part => .ok part

theorem local_afterComma {item : Production α 0} (isLocal : Local item) :
    Local (afterComma item) := by
  intro whole tokens part
  refine .bind (local_symbol _ part) fun comma _ part => ?_
  exact .bind (isLocal part) fun _ _ part => .ok part

theorem local_commaSeparated {item : Production α 0} (isLocal : Local item) :
    Local (commaSeparated item) :=
  local_manyWhile (local_afterComma isLocal) _

theorem local_separated {item : Production α count} (isLocal : Local item) :
    Local (separated item) := by
  intro whole tokens part
  refine .bind (isLocal part) fun first _ part => ?_
  exact .bind (local_commaSeparated (local_weaken isLocal) part) fun _ _ part => .ok part

theorem local_separatedUnless {item : Production α count} (isLocal : Local item)
    (close : Symbol) : Local (separatedUnless close item) := by
  intro whole tokens part
  exact .ite (fun _ => .ok part) fun _ => local_weaken (local_separated isLocal) part

end Repetition

/-! ## Operands -/

section Operands

variable {expr : ExprProduction} (isLocal : ∀ level, Local (expr level))
  {whole tokens : List Token} (part : tokens <:+ whole)
include isLocal

theorem local_arguments : Local (arguments expr) := by
  intro whole tokens part
  refine .bind (local_symbol _ part) fun opening _ part => ?_
  refine .bind (local_separatedUnless (isLocal 0) _ part) fun values _ part => ?_
  exact .bind (local_symbol _ part) fun _ _ part => .ok part

theorem local_filtersOf (target : Expr) : Local (filtersOf expr target) := by
  intro whole tokens part
  refine .ite (fun _ => ?_) fun _ => .ok part
  exact .bind (local_arguments isLocal part) fun _ _ part => .ok part

theorem local_columnOf (table : String) (origin : Span) :
    Local (columnOf expr table origin) := by
  intro whole tokens part
  cases tokens with
  | nil => exact .ok part
  | cons token rest =>
    obtain ⟨kind, span, position, spelling⟩ := token
    cases kind with
    | bracketName =>
      exact .bind (local_filtersOf isLocal _ (left_of_cons part)) fun _ _ part => .ok part
    | _ => exact .ok part

include part

theorem within_named (name : String) (token : Token) :
    Within whole (named expr name token tokens) :=
  .bind (local_columnOf isLocal name token.span part) fun _ _ part => .ok part

theorem within_called (name : String) (token : Token) :
    Within whole (called expr name token tokens) :=
  .bind (local_arguments isLocal part) fun _ _ part => .ok part

theorem within_measured (name : String) (token : Token) :
    Within whole (measured expr name token tokens) :=
  .bind (local_filtersOf isLocal _ part) fun _ _ part => .ok part

theorem within_signed (operator : UnaryOperator) (token : Token) :
    Within whole (signed expr operator token tokens) :=
  .bind (isLocal operator.operandLevel part) fun _ _ part => .ok part

omit isLocal part in
theorem local_variableName : Local variableName := by
  intro whole tokens part
  cases tokens with
  | nil => exact .error (blames_expected part _)
  | cons token rest =>
    obtain ⟨kind, span, position, spelling⟩ := token
    cases kind with
    | identifier => exact .ok (left_of_cons part)
    | _ => exact .error (blames_expected part _)

omit part in
theorem local_binding : Local (binding expr) := by
  intro whole tokens part
  refine .bind (local_keyword _ part) fun opening _ part => ?_
  refine .bind (local_variableName part) fun name _ part => ?_
  refine .bind (local_symbol _ part) fun equals _ part => ?_
  exact .bind (isLocal 0 part) fun _ _ part => .ok part

theorem within_bindingsFrom (start : Nat) : Within whole (bindingsFrom expr start tokens) := by
  refine .bind (local_manyWhile (local_binding isLocal) _ part) fun values _ part => ?_
  refine .bind (local_keyword _ part) fun result _ part => ?_
  exact .bind (isLocal 0 part) fun _ _ part => .ok part

omit part

theorem local_group : Local (group expr) := by
  intro whole tokens part
  refine .bind (local_symbol _ part) fun opening _ part => ?_
  refine .bind (local_separated (isLocal 0) part) fun values _ part => ?_
  exact .bind (local_symbol _ part) fun _ _ part => .ok part

/-- A row is judged when it has been read, and its first token is blamed. -/
theorem local_tableRow (width? : Option Nat) : Local (tableRow expr width?) := by
  intro whole tokens part
  rw [tableRow_eq]
  refine .bind (isLocal 0 part) @fun rest value fits left => ?_
  have judged {issue : Issue} (about : issue.IsAbout tokens) : Refusal.Blames
      ⟨issue, nextPosition? tokens, rest.length, rest.length⟩ whole :=
    blames_next part rfl (by simp only; omega) about
  simp only [rowOutcome]
  cases value.row? with
  | none => exact .error (judged trivial)
  | some row => exact .ite (fun _ => .ok left) fun _ => .error (judged trivial)

theorem local_tableRows : Local (tableRows expr) := by
  intro whole tokens part
  refine .ite (fun _ => .ok part) fun _ => ?_
  refine .bind (local_tableRow isLocal none part) fun first _ part => ?_
  have further := local_commaSeparated (local_weaken (local_tableRow isLocal (some first.length)))
  exact .bind (further part) fun _ _ part => .ok part

theorem local_table : Local (table expr) := by
  intro whole tokens part
  refine .bind (local_symbol _ part) fun opening _ part => ?_
  refine .bind (local_tableRows isLocal part) fun rows _ part => ?_
  exact .bind (local_symbol _ part) fun _ _ part => .ok part

omit isLocal in
theorem local_columnName : Local columnName := by
  intro whole tokens part
  cases tokens with
  | nil => exact .error (blames_expected part _)
  | cons token rest =>
    obtain ⟨kind, span, position, spelling⟩ := token
    cases kind with
    | text => exact .ok (left_of_cons part)
    | _ => exact .error (blames_expected part _)

omit isLocal in
theorem local_columnType : Local columnType := by
  intro whole tokens part
  cases tokens with
  | nil => exact .error (blames_reject part rfl)
  | cons token rest =>
    simp only [columnType]
    split
    · exact .ok (left_of_cons part)
    · exact .error (blames_reject part rfl)

omit isLocal in
theorem local_dataColumn : Local dataColumn := by
  intro whole tokens part
  refine .bind (local_columnName part) fun name _ part => ?_
  refine .bind (local_symbol _ part) fun between _ part => ?_
  refine .bind (local_columnType part) fun type _ part => ?_
  exact .bind (local_symbol _ part) fun _ _ part => .ok part

theorem local_dataCell : Local (dataCell expr) := by
  intro whole tokens part
  refine .ite (fun _ => .ok part) fun _ => ?_
  exact .bind (isLocal 0 part) fun _ _ part => .ok part

theorem local_dataRow (width : Nat) : Local (dataRow expr width) := by
  intro whole tokens part
  refine .bind (local_symbol _ part) @fun _ opening opened left => ?_
  refine .bind (local_separated (local_dataCell isLocal) left) @fun _ cells counted left => ?_
  refine .bind (local_symbol _ left) @fun rest closing closed left => ?_
  refine .ite (fun _ => .error (blames_next part rfl ?_ trivial)) fun _ => .ok left
  simp only at opened counted closed ⊢
  omega

theorem local_dataTable : Local (dataTable expr) := by
  intro whole tokens part
  refine .bind (local_keyword _ part) fun word _ part => ?_
  refine .bind (local_symbol _ part) fun outer _ part => ?_
  refine .bind (local_manyWhile local_dataColumn _ part) fun columns _ part => ?_
  refine .ite (fun _ => .error (blames_expected part _)) fun _ => ?_
  refine .bind (local_symbol _ part) fun opening _ part => ?_
  refine .bind (local_separatedUnless (local_dataRow isLocal _) _ part) fun rows _ part => ?_
  refine .bind (local_symbol _ part) fun closing _ part => ?_
  exact .bind (local_symbol _ part) fun _ _ part => .ok part

/-! ## The choice between them -/

theorem within_keywordOperand {rest : List Token} {token : Token} (part : token :: rest <:+ whole)
    (word : Keyword) : Within whole (keywordOperand expr word token rest) := by
  have left := left_of_cons part
  have noneSuch := blames_noOperand part
  refine .ite (fun _ => within_named isLocal left token.spelling token) fun _ => ?_
  cases word with
  | var => exact within_bindingsFrom isLocal part _
  | logicalNot => exact within_signed isLocal left _ token
  | dataTable => exact local_dataTable isLocal part
  | trueValue | falseValue | blank =>
    exact .ite (fun _ => within_called isLocal left _ token) fun _ => .ok left
  | logicalAnd | logicalOr =>
    exact .ite (fun _ => within_called isLocal left _ token) fun _ => .error noneSuch
  | _ => exact .error noneSuch

theorem local_operandOf : Local (operandOf expr) := by
  intro whole tokens part
  cases tokens with
  | nil => exact .error (blames_noOperand part)
  | cons token rest =>
    have left := left_of_cons part
    have noneSuch := blames_noOperand part
    obtain ⟨kind, span, position, spelling⟩ := token
    cases kind with
    | keyword word => exact within_keywordOperand isLocal part word
    | number | text => exact .ok left
    | identifier name =>
      exact .ite (fun _ => within_called isLocal left name _) fun _ =>
        within_named isLocal left name _
    | quotedName name => exact within_named isLocal left name _
    | bracketName name => exact within_measured isLocal left name _
    | symbol sign =>
      cases sign with
      | minus | plus => exact within_signed isLocal left _ _
      | leftParen => exact local_group isLocal part
      | leftBrace => exact local_table isLocal part
      | _ => exact .error noneSuch
    | _ => exact .error noneSuch

end Operands

/-! ## Expressions -/

section Climbing

variable {operand : Production Expr 1} (isLocal : Local operand)
include isLocal

theorem local_climbFrom (level : Nat) (left : Expr) : Local (climbFrom operand level left) := by
  intro whole tokens part
  induction counted : tokens.length using Nat.strongRecOn generalizing level left tokens with
  | ind length ih =>
    cases tokens with
    | nil =>
      rw [climbFrom]
      exact .ok part
    | cons token rest =>
      rw [List.length_cons] at counted
      rw [climbFrom]
      cases BinaryOperator.ofKind? token.kind with
      | none => exact .ok part
      | some operator =>
        refine .ite (fun _ => .ok part) fun _ => ?_
        refine .bind (isLocal (left_of_cons part)) @fun after first fits part => ?_
        have shorter : after.length < length := by omega
        refine .bind (ih _ shorter _ first part rfl) @fun after' right fits' part => ?_
        have shorter' : after'.length < length := by
          simp only at fits'
          omega
        exact .bind (ih _ shorter' level _ part rfl) fun _ _ part => .ok part

theorem local_climb (level : Nat) : Local (climb operand level) := by
  intro whole tokens part
  refine .bind (isLocal part) fun first _ part => ?_
  exact .bind (local_climbFrom isLocal level first part) fun _ _ part => .ok part

end Climbing

theorem local_operand (levels : Nat) : Local (operand levels) := by
  induction levels with
  | zero => exact fun _ _ part => .error (blames_refuse part trivial)
  | succ levels ih => exact local_operandOf fun level => local_climb ih level

theorem local_expressionOfLevel (level : Nat) : Local (expressionOfLevel level) :=
  local_climb (local_operand maxNesting) level

/-! ## Measures -/

theorem local_measureTable : Local measureTable := by
  intro whole tokens part
  cases tokens with
  | nil => exact .error (blames_reject part rfl)
  | cons token rest =>
    have left := left_of_cons part
    obtain ⟨kind, span, position, spelling⟩ := token
    cases kind with
    | identifier | keyword => exact .ok left
    | quotedName name =>
      exact .ite (fun _ => .error (blames_reject part trivial)) fun _ => .ok left
    | _ => exact .error (blames_reject part rfl)

theorem local_measureName : Local measureName := by
  intro whole tokens part
  cases tokens with
  | nil => exact .error (blames_reject part rfl)
  | cons token rest =>
    obtain ⟨kind, span, position, spelling⟩ := token
    cases kind with
    | bracketName name =>
      exact .ite (fun _ => .error (blames_reject part trivial)) fun _ => .ok (left_of_cons part)
    | _ => exact .error (blames_reject part rfl)

theorem local_format : Local format := by
  intro whole tokens part
  cases tokens with
  | nil => exact .error (blames_reject part rfl)
  | cons token rest =>
    simp only [format]
    split
    · exact .ok (left_of_cons part)
    · exact .error (blames_reject part rfl)

/-- Of an attribute the key is blamed, or the value. -/
theorem within_formatAttributeOf (property : CalculationProperty) {key : String}
    {keyToken : Token} {whole rest : List Token} (keyed : keyToken.kind = .identifier key)
    (part : keyToken :: rest <:+ whole) :
    Within whole (formatAttributeOf property key keyToken rest) := by
  refine .bind (local_symbol _ (left_of_cons part)) @fun value equals fits left => ?_
  have keyRefused {issue : Issue} (about : issue.IsAbout (keyToken :: rest)) : Refusal.Blames
      ⟨issue, some keyToken.position, value.length - 1, value.length⟩ whole :=
    blames_next part rfl (by simp only [List.length_cons]; omega) about
  simp only
  cases AttributeName.ofWord? key with
  | none => exact .error (keyRefused (.inl keyed))
  | some name =>
    simp only
    cases name.withValue? (nextKind value) with
    | none => exact .error (blames_reject left (by cases name <;> trivial))
    | some assigned =>
      exact .ite (fun _ => .error (keyRefused keyed)) fun _ =>
        .ok ((List.tail_suffix value).trans left)

theorem local_formatAttribute (property : CalculationProperty) :
    Local (formatAttribute property) := by
  intro whole tokens part
  cases tokens with
  | nil => exact .error (blames_refuse part (.inr rfl))
  | cons token rest =>
    simp only [formatAttribute]
    split
    · next keyed => exact within_formatAttributeOf property keyed part
    · exact .error (blames_refuse part (.inr rfl))

theorem local_calculationProperty : Local calculationProperty := by
  intro whole tokens part
  refine .bind (local_keyword _ part) fun first _ part => ?_
  refine .bind (local_keyword _ part) fun second _ part => ?_
  refine .bind (local_format part) fun format _ part => ?_
  exact .bind (local_foldWhile local_formatAttribute _ _ part) fun _ _ part => .ok part

theorem local_calculationProperty? : Local calculationProperty? := by
  intro whole tokens part
  refine .ite (fun _ => ?_) fun _ => .ok part
  exact .bind (local_calculationProperty part) fun _ _ part => .ok part

theorem local_measureClause (start : Nat) : Local (measureClause start) := by
  intro whole tokens part
  refine .bind (local_measureTable part) fun table _ part => ?_
  refine .bind (local_measureName part) fun name _ part => ?_
  refine .bind (local_symbol _ part) fun equals _ part => ?_
  refine .bind (local_expressionOfLevel 0 part) fun body _ part => ?_
  exact .bind (local_calculationProperty? part) fun _ _ part => .ok part

/-! ## Statements -/

section Checks

variable {α : Type} {count : Nat} {whole tokens rest : List Token}
  {reading : Reading α count tokens}
  (within : Within whole reading) (part : rest <:+ whole)
include within part

theorem Within.atEnd : Within whole (do statementEnd rest; reading) := by
  unfold statementEnd
  split
  · exact within
  · exact .error (blames_expected part _)

theorem Within.unless {accepts : TokenKind → Bool} {expectation : Expectation} :
    Within whole (do
      if !accepts (nextKind rest) then .error (expected rest expectation)
      reading) := by
  cases accepts (nextKind rest) with
  | true => exact within
  | false => exact .error (blames_expected part _)

end Checks

theorem local_direction? : Local direction? := by
  intro whole tokens part
  cases tokens with
  | nil => exact .ok part
  | cons token rest =>
    obtain ⟨kind, span, position, spelling⟩ := token
    cases kind with
    | keyword word =>
      cases word with
      | ascending | descending => exact .ok (left_of_cons part)
      | _ => exact .ok part
    | _ => exact .ok part

theorem local_sortKey : Local sortKey := by
  intro whole tokens part
  refine .bind (local_expressionOfLevel 0 part) fun value _ part => ?_
  exact .bind (local_direction? part) fun _ _ part => .ok part

theorem local_ordering : Local ordering := by
  intro whole tokens part
  refine .ite (fun _ => ?_) fun _ => .ok part
  refine .bind (local_keyword _ part) fun first _ part => ?_
  refine .bind (local_keyword _ part) fun second _ part => ?_
  exact .bind (local_separated local_sortKey part) fun _ _ part => .ok part

theorem within_query {whole tokens : List Token}
    (opened : Within whole (keyword .evaluate tokens)) : Within whole (query tokens) := by
  refine .bind opened fun word _ part => ?_
  refine .bind (local_expressionOfLevel 0 part) fun table _ part => ?_
  refine .bind (local_ordering part) fun keys _ part => ?_
  exact .atEnd (.ok part) part

theorem local_query : Local query :=
  fun _ _ part => within_query (local_keyword _ part)

theorem local_definition : Local definition := by
  intro whole tokens part
  refine .ite (fun _ => ?_) fun _ => ?_
  · refine .bind (local_keyword _ part) fun word _ part => ?_
    exact .bind (local_measureClause _ part) fun _ _ part => .ok part
  · exact .bind (local_binding local_expressionOfLevel part) fun _ _ part => .ok part

theorem local_block : Local block := by
  intro whole tokens part
  refine .unless (.bind (local_manyWhile local_definition _ part) fun definitions _ part => ?_) part
  refine .unless (.bind (local_query part) fun _ _ part => ?_) part
  exact .ok part

theorem within_creation (create : Token) (rest : List Token) :
    Within rest (creation create rest) := by
  have part : rest <:+ rest := List.suffix_refl rest
  unfold creation
  split
  · refine .bind (local_keyword _ part) fun word _ part => ?_
    refine .bind (local_measureClause _ part) fun clause _ part => ?_
    exact .atEnd (.ok part) part
  · exact .ite (fun _ => .error (blames_refuse part trivial)) fun _ => .ok part
  · exact .ok part

/-- **A statement that is refused blames what stands behind its first token.** -/
theorem within_statement (first : Token) (rest : List Token) :
    Within rest (statement first rest) := by
  have part : rest <:+ rest := List.suffix_refl rest
  unfold statement
  split
  · exact within_creation first rest
  · exact .bind (local_block part) fun _ _ part => .ok part
  · next evaluates =>
    have opens : keyword .evaluate (first :: rest) = .ok (.single first first rest) :=
      if_pos evaluates
    have opened : Within rest (keyword .evaluate (first :: rest)) := opens ▸ .ok part
    exact .bind (within_query opened) fun _ _ part => .ok part
  · refine .bind (local_expressionOfLevel 0 part) fun value _ part => ?_
    exact .atEnd (.ok part) part
  · exact .ok part

/-- A refused statement is about a token behind its first one, or about the end of the input. -/
theorem blames_of_refused {first : Token} {rest : List Token} {refusal : Refusal}
    (refused : statement first rest = .error refusal) : refusal.Blames rest := by
  have within := within_statement first rest
  rw [refused] at within
  cases within with
  | error blames => exact blames

end Production

end DaxScript
