import DaxScript.Proofs.Grammar.AttributeFaults
import DaxScript.Proofs.Script.TurnEvents

/-!
# Attributes in any order

The attributes of a formatting are a set: a measure with a formatting is defined exactly if its
attributes are acceptable, and then its property has the listed attributes and no others, in
whatever order they are written.  Otherwise the statement is refused for the first attribute that
breaks a rule, and reading goes on where it would have gone on anyway (`attributes_unordered`).
-/

set_option autoImplicit false

namespace DaxScript

open Production

/-- A measure of its own with a formatting, up to the name of the format.  In a block a measure is
followed by further definitions or by the query, and never by the end of its statement. -/
structure FormattedMeasure where
  create : Token
  word : Token
  table : Token
  name : Token
  equals : Token
  used : List Token
  body : Expr
  first : Token
  second : Token
  named : Token
  formatWord : String
  format : Format
  creates : create.kind = .keyword .create
  opens : word.kind = .keyword .measure
  tableNamed : table.kind.namesTable = true
  measureNamed : name.kind.namesMeasure = true
  sign : equals.kind = .symbol .equal
  reading : Rule.ExpressionOfLevel 0 used body (.keyword .calculation)
  announces : first.kind = .keyword .calculation
  goesOn : second.kind = .keyword .property
  names : named.kind = .identifier formatWord
  known : Format.ofWord? formatWord = some format

namespace FormattedMeasure

variable (statement : FormattedMeasure)

/-- The tokens behind the first one. -/
def others (attributes : List WrittenAttribute) : List Token :=
  statement.word :: statement.table :: statement.name :: statement.equals ::
    (statement.used ++ statement.first :: statement.second :: statement.named ::
      WrittenAttribute.allTokens attributes)

/-- The tokens of the measure with attributes. -/
def tokens (attributes : List WrittenAttribute) : List Token :=
  statement.create :: statement.others attributes

/-- The measure, given its property. -/
def clause (property : CalculationProperty) : MeasureClause :=
  ⟨statement.create.span.start, statement.table, statement.name, statement.body, some property⟩

variable {statement} {attributes : List WrittenAttribute} {after : List Token}

/-- **A measure with acceptable attributes is read**, and its property lists them. -/
theorem exists_statement (acceptable : AttributeText.Acceptable (WrittenAttribute.texts attributes))
    {next : TokenKind} (ends : endsStatement next = true) :
    ∃ property : CalculationProperty,
      property.Lists statement.format (WrittenAttribute.texts attributes) ∧
        Rule.Statement (statement.tokens attributes) (.createMeasure (statement.clause property))
          next := by
  obtain ⟨property, folded, lists⟩ :=
    exists_folded_of_acceptable attributes (.ofFormat statement.format) acceptable
      (Rule.noPart_of_endsStatement ends).1
  refine ⟨property, lists, .createMeasure statement.creates statement.opens ?_ ends⟩
  have formatting : Rule.Formatting
      (statement.first :: statement.second :: statement.named ::
        WrittenAttribute.allTokens attributes) property next :=
    .intro statement.announces statement.goesOn statement.names statement.known folded
  refine .intro statement.tableNamed statement.measureNamed statement.sign ?_ (.present formatting)
  rw [kindAfter, statement.announces]
  exact statement.reading

section Refused

variable {behind : List Token} {refusal : Refusal}
  (refused : foldWhile isIdentifier formatAttribute (.ofFormat statement.format) behind =
    .error refusal)
include refused

/-- A formatting whose attributes are refused. -/
theorem formatting_refused :
    calculationProperty? (statement.first :: statement.second :: statement.named :: behind) =
      .error refusal := by
  have isAnnounced : isKeyword .calculation
      (nextKind (statement.first :: statement.second :: statement.named :: behind)) = true := by
    simp [nextKind, isKeyword, statement.announces]
  have inner : calculationProperty
      (statement.first :: statement.second :: statement.named :: behind) = .error refusal := by
    refine (yields_keyword statement.announces).thenRefused fun _ => ?_
    refine (yields_keyword statement.goesOn).thenRefused fun _ => ?_
    refine (yields_format_iff.mpr ⟨_, _, rfl, statement.names, statement.known⟩).thenRefused
      fun _ => ?_
    simp only [refused]
    rfl
  rw [calculationProperty?, if_pos isAnnounced, inner]
  rfl

/-- A measure clause with such a formatting. -/
theorem clause_refused (start : Nat) :
    measureClause start (statement.table :: statement.name :: statement.equals ::
      (statement.used ++ statement.first :: statement.second :: statement.named :: behind)) =
        .error refusal := by
  have nextIs : nextKind (statement.first :: statement.second :: statement.named :: behind) =
      .keyword .calculation := statement.announces
  refine (yields_measureTable_iff.mpr ⟨rfl, statement.tableNamed⟩).thenRefused fun _ => ?_
  refine (yields_measureName_iff.mpr ⟨rfl, statement.measureNamed⟩).thenRefused fun _ => ?_
  refine (yields_symbol statement.sign).thenRefused fun _ => ?_
  refine (describes_expression.complete (nextIs ▸ statement.reading)).thenRefused fun _ => ?_
  simp only [formatting_refused refused]
  rfl

end Refused

/-- **A measure whose attributes are refused is refused for the same reason.** -/
theorem statement_refused {refusal : Refusal}
    (refused : foldWhile isIdentifier formatAttribute (.ofFormat statement.format)
      (WrittenAttribute.allTokens attributes ++ after) = .error refusal) :
    Production.statement statement.create (statement.others attributes ++ after) =
      .error refusal := by
  let behindBody := statement.first :: statement.second :: statement.named ::
    (WrittenAttribute.allTokens attributes ++ after)
  have cut : statement.others attributes ++ after =
      statement.word :: statement.table :: statement.name :: statement.equals ::
        (statement.used ++ behindBody) := by
    simp [others, behindBody]
  have word : keyword .measure (statement.word :: statement.table :: statement.name ::
      statement.equals :: (statement.used ++ behindBody)) = .ok (.single statement.word _ _) := by
    simp [keyword, statement.opens]
  rw [cut]
  simp only [Production.statement, statement.creates, creation, nextKind, statement.opens, word]
  simp only [bind, Except.bind, Parsed.rest_single, behindBody, clause_refused refused]

end FormattedMeasure

/-! ## Passing over attributes -/

namespace Turn

/-- Attributes are passed over like any other tokens that neither open nor end anything. -/
theorem pass_allTokens (attributes : List WrittenAttribute) (rest : List Token) :
    pass 0 (WrittenAttribute.allTokens attributes ++ rest) = pass 0 rest := by
  induction attributes with
  | nil => rfl
  | cons written attributes ih =>
    have cut : WrittenAttribute.allTokens (written :: attributes) ++ rest =
        written.key :: written.equals :: written.valueToken ::
          (WrittenAttribute.allTokens attributes ++ rest) := by
      simp [WrittenAttribute.allTokens, WrittenAttribute.tokens]
    have overValue (later : List Token) : pass 0 (written.valueToken :: later) = pass 0 later := by
      have plain := written.plain
      rw [← written.valued] at plain
      cases isKind : written.valueToken.kind with
      | keyword word =>
        rw [isKind] at plain
        have starts : word.startsStatement = false := by
          cases word <;> first | rfl | cases plain
        simp [pass, isKind, starts]
      | symbol => rw [isKind] at plain; cases plain
      | comment => rw [isKind] at plain; cases plain
      | endOfInput => rw [isKind] at plain; cases plain
      | _ => simp [pass, isKind]
    rw [cut, pass, pass]
    simp only [written.keyed, written.sign]
    rw [overValue, ih]

/-- Tokens in front of which a statement ends, with the input, at a semicolon or at a keyword that
begins the next one. -/
inductive EndsBefore : List Token → Prop where
  | finish : EndsBefore []
  | semicolon {token : Token} {rest : List Token} (sign : token.kind = .symbol .semicolon) :
      EndsBefore (token :: rest)
  | statement {token : Token} {rest : List Token} {word : Keyword}
      (isWord : token.kind = .keyword word) (starts : word.startsStatement = true) :
      EndsBefore (token :: rest)

namespace EndsBefore

variable {after : List Token}

theorem endsStatement (ends : EndsBefore after) :
    Production.endsStatement (nextKind after) = true := by
  cases ends with
  | finish => rfl
  | semicolon sign => rw [nextKind, sign]; rfl
  | statement isWord starts => rw [nextKind, isWord]; exact starts

/-- At the end of a statement nothing is passed over, except for a semicolon. -/
theorem rest_pass (ends : EndsBefore after) : (pass 0 after).2 = after ∨
    ∃ semicolon, semicolon.kind = .symbol .semicolon ∧ after = semicolon :: (pass 0 after).2 := by
  cases ends with
  | finish => exact .inl rfl
  | @semicolon token rest sign => exact .inr ⟨token, sign, by simp [pass, sign]⟩
  | statement isWord starts => exact .inl (by simp [pass, isWord, starts])

end EndsBefore

end Turn

/-- A statement that is refused tells its refusal, and reading goes on behind what is passed
over. -/
theorem StatementTells.of_refused {source : String} {first : Token} {rest left : List Token}
    {refusal : Refusal} (noSign : first.kind ≠ .symbol .semicolon)
    (refused : Production.statement first rest = .error refusal) (isLeft : left <:+ rest)
    (unread : refusal.unread = left.length) :
    StatementTells source (first :: rest) (Turn.pass 0 left).2
      (.diagnosed (refusal.diagnostic (Input.ofSource source).finish)) := by
  obtain ⟨used, rfl⟩ := isLeft
  have dropped : (used ++ left).drop ((used ++ left).length - refusal.unread) = left := by
    rw [unread, List.length_append, Nat.add_sub_cancel, List.drop_left]
  have isTurn : Turn.ofTokens source.toList (Input.ofSource source).finish first (used ++ left) =
      Turn.lookingAt (used ++ left) (Turn.passAfter ⟨refusal.unseen,
        [.diagnosed (refusal.diagnostic (Input.ofSource source).finish)]⟩ left) := by
    simp only [Turn.ofTokens, if_neg noSign, refused, Turn.ofRefusal, dropped]
    rfl
  refine .of_turn isTurn ?_ (refusal.isLexical_diagnostic _)
  simp [Turn.ownEvents, Turn.lookingAt, Turn.passAfter, Turn.events_pass]

namespace FormattedMeasure

variable {statement : FormattedMeasure} {attributes : List WrittenAttribute} {after : List Token}
  {source : String}

theorem noSign : statement.create.kind ≠ .symbol .semicolon := by
  rw [statement.creates]
  exact TokenKind.noConfusion

/-- A measure with acceptable attributes is told as defined. -/
theorem tells_defined (acceptable : AttributeText.Acceptable (WrittenAttribute.texts attributes))
    (ends : Turn.EndsBefore after) :
    ∃ property : CalculationProperty,
      property.Lists statement.format (WrittenAttribute.texts attributes) ∧
        StatementTells source (statement.tokens attributes ++ after) after
          (.defined (.ofClause source.toList (statement.clause property))) := by
  obtain ⟨property, lists, reading⟩ := exists_statement acceptable ends.endsStatement
  exact ⟨property, lists, .of_turn (Turn.ofTokens_of_rule noSign rfl reading) rfl rfl⟩

/-- **A measure with other attributes is told as refused** for the first one with which something is
wrong, and the others are passed over. -/
theorem tells_refused (wrong : ¬AttributeText.Acceptable (WrittenAttribute.texts attributes))
    (ends : Turn.EndsBefore after) :
    ∃ front written later issue position left, attributes = front ++ written :: later ∧
      AttributeText.Acceptable (WrittenAttribute.texts front) ∧
      WrittenAttribute.Fault front written issue position ∧
      (left = after ∨ ∃ semicolon, semicolon.kind = .symbol .semicolon ∧
        after = semicolon :: left) ∧
      StatementTells source (statement.tokens attributes ++ after) left
        (.diagnosed (.error .grammar issue.message position)) := by
  have start : (CalculationProperty.ofFormat statement.format).Lists statement.format
      (WrittenAttribute.texts []) := .ofFormat statement.format
  obtain ⟨front, written, later, issue, position, rfl, acceptable, fault, refused⟩ :=
    WrittenAttribute.foldWhile_refused start .nil wrong after
  have kind : issue.kind = .grammar := by
    cases fault with
    | @illTyped name => cases name <;> rfl
    | _ => rfl
  have isLeft : WrittenAttribute.allTokens later ++ after <:+
      statement.others (front ++ written :: later) ++ after := by
    refine ⟨statement.others front ++ written.tokens, ?_⟩
    simp [others, WrittenAttribute.allTokens]
  have tells := @StatementTells.of_refused source _ _ _ _ noSign (statement_refused refused) isLeft
    rfl
  rw [Turn.pass_allTokens] at tells
  refine ⟨front, written, later, issue, position, (Turn.pass 0 after).2, rfl, acceptable, fault,
    ends.rest_pass, ?_⟩
  rw [← kind]
  exact tells

end FormattedMeasure

/-- There is a property for acceptable attributes. -/
theorem CalculationProperty.exists_lists (format : Format) {texts : List AttributeText}
    (acceptable : AttributeText.Acceptable texts) :
    ∃ property : CalculationProperty, property.Lists format texts := by
  induction texts using List.reverseRecOn with
  | nil => exact ⟨_, .ofFormat format⟩
  | append_singleton texts text ih =>
    obtain ⟨before, ⟨assigned, meant⟩, differ⟩ :=
      AttributeText.Acceptable.concat_iff.mp acceptable
    obtain ⟨property, lists⟩ := ih before
    exact ⟨_, lists.set meant ((lists.has_eq_false_iff before meant.names).mpr differ)⟩

/-- **The attributes of a formatting are an unordered set.**  If they are acceptable, the measure is
defined with the one property that lists them, in whatever order they are written.  Otherwise the
statement is refused in every order, for the first attribute with which something is wrong. -/
theorem attributes_unordered (texts : List AttributeText) :
    (AttributeText.Acceptable texts → ∀ format, ∃ property : CalculationProperty,
      property.Lists format texts ∧
        ∀ (source : String) (statement : FormattedMeasure) (attributes : List WrittenAttribute)
          (after : List Token), statement.format = format →
          (WrittenAttribute.texts attributes).Perm texts → Turn.EndsBefore after →
            StatementTells source (statement.tokens attributes ++ after) after
              (.defined (.ofClause source.toList (statement.clause property)))) ∧
      (¬AttributeText.Acceptable texts →
        ∀ (source : String) (statement : FormattedMeasure) (attributes : List WrittenAttribute)
          (after : List Token), (WrittenAttribute.texts attributes).Perm texts →
          Turn.EndsBefore after →
            ∃ front written later issue position left, attributes = front ++ written :: later ∧
              AttributeText.Acceptable (WrittenAttribute.texts front) ∧
              WrittenAttribute.Fault front written issue position ∧
              (left = after ∨ ∃ semicolon, semicolon.kind = .symbol .semicolon ∧
                after = semicolon :: left) ∧
              StatementTells source (statement.tokens attributes ++ after) left
                (.diagnosed (.error .grammar issue.message position))) := by
  constructor
  · intro acceptable format
    obtain ⟨property, lists⟩ := CalculationProperty.exists_lists format acceptable
    refine ⟨property, lists, ?_⟩
    rintro source statement attributes after rfl permuted ends
    obtain ⟨own, ownLists, tells⟩ :=
      @FormattedMeasure.tells_defined statement attributes after source
        (acceptable.perm permuted) ends
    obtain rfl := lists.unique ownLists permuted
    exact tells
  · intro wrong source statement attributes after permuted ends
    exact FormattedMeasure.tells_refused (fun acceptable => wrong (acceptable.perm permuted.symm))
      ends

/-! ## A measure with attributes -/

/-- A token on the first line of a source. -/
def Token.onFirstLine (kind : TokenKind) (offset : Nat) (spelling : String) : Token :=
  .place kind ⟨offset, 1, offset + 1⟩ spelling.toList

/-- An attribute on the first line of a source, without blanks. -/
def WrittenAttribute.onFirstLine (offset : Nat) (word : String) (value : TokenKind)
    (spelling : String) (plain : value.isPlainValue = true) : WrittenAttribute where
  word := word
  value := value
  key := .onFirstLine (.identifier word) offset word
  equals := .onFirstLine (.symbol .equal) (offset + word.length) "="
  valueToken := .onFirstLine value (offset + word.length + 1) spelling
  keyed := rfl
  sign := rfl
  valued := rfl
  plain := plain

/-- The measure `CREATE MEASURE T[m]=1 CALCULATION PROPERTY Text`. -/
def FormattedMeasure.one : FormattedMeasure where
  create := .onFirstLine (.keyword .create) 0 "CREATE"
  word := .onFirstLine (.keyword .measure) 7 "MEASURE"
  table := .onFirstLine (.identifier "T") 15 "T"
  name := .onFirstLine (.bracketName "m") 16 "[m]"
  equals := .onFirstLine (.symbol .equal) 19 "="
  used := [.onFirstLine (.number (.ofRatio 1 1)) 20 "1"]
  body := .node (.number (.ofRatio 1 1)) ⟨20, 21⟩
  first := .onFirstLine (.keyword .calculation) 22 "CALCULATION"
  second := .onFirstLine (.keyword .property) 34 "PROPERTY"
  named := .onFirstLine (.identifier "Text") 43 "Text"
  formatWord := "Text"
  format := .text
  creates := rfl
  opens := rfl
  tableNamed := rfl
  measureNamed := rfl
  sign := rfl
  reading := by
    have alone : Rule.operandRule maxNesting
        [.onFirstLine (.number (.ofRatio 1 1)) 20 "1"]
        (.node (.number (.ofRatio 1 1)) ⟨20, 21⟩) (.keyword .calculation) :=
      Rule.Operand.leaf rfl rfl
    have whole : Rule.Expression (Rule.operandRule maxNesting) 0 ([_] ++ []) _ _ :=
      .intro alone (.done (by rintro _ ⟨⟩))
    exact whole
  announces := rfl
  goesOn := rfl
  names := rfl
  known := by decide

/-- Two attributes, written in another order than they are listed, and one of them twice. -/
theorem attributes_unordered_twice :
    let source := "CREATE MEASURE T[m]=1 CALCULATION PROPERTY Text Format='0' accuracy=2"
    let twice := source ++ " FORMAT=\"\""
    (∃ property : CalculationProperty, property.accuracy = some 2 ∧
        (readScript source {}).measures =
          [.ofClause source.toList (FormattedMeasure.one.clause property)]) ∧
      ∃ issue position, (readScript twice {}).collector.items =
        [.error .grammar (Issue.message issue) position] := by
  intro source twice
  let pattern := WrittenAttribute.onFirstLine 48 "Format" (.quotedName "0") "'0'" rfl
  let accuracy := WrittenAttribute.onFirstLine 59 "accuracy" (.number (.ofRatio 2 1)) "2" rfl
  let again := WrittenAttribute.onFirstLine 70 "FORMAT" (.text "") "\"\"" rfl
  have meantPattern : pattern.Means (.formatString "0") := ⟨by decide +kernel, .quotedName "0"⟩
  have whole : (Binary64.ofRatio 2 1).IsWhole 2 := by
    rw [← Binary64.toNat?_eq_some_iff]
    decide +kernel
  have meantAccuracy : accuracy.Means (.accuracy 2) :=
    ⟨by decide +kernel, .accuracy whole (by decide)⟩
  have acceptable : AttributeText.Acceptable [accuracy.toAttributeText, pattern.toAttributeText] :=
    AttributeText.Acceptable.concat_iff.mpr
      ⟨AttributeText.Acceptable.concat_iff.mpr ⟨.nil, ⟨_, meantAccuracy⟩, by simp⟩,
        ⟨_, meantPattern⟩, by decide +kernel⟩
  constructor
  · obtain ⟨property, lists, told⟩ := (attributes_unordered _).1 acceptable .text
    have tells := told source .one [pattern, accuracy] [] rfl (.swap _ _ _) .finish
    refine ⟨property, (lists.gives (.accuracy 2)).mpr ⟨_, by simp, meantAccuracy⟩, ?_⟩
    exact (tells.alone (by decide +kernel) rfl (by decide +kernel) {}).1
  · have wrong : ¬AttributeText.Acceptable
        (WrittenAttribute.texts [pattern, accuracy, again]) := by
      intro acceptable
      have once := acceptable.once
      revert once
      decide +kernel
    obtain ⟨_, _, _, issue, position, left, _, _, _, isLeft, tells⟩ :=
      (attributes_unordered _).2 wrong twice .one [pattern, accuracy, again] [] (.refl _) .finish
    have atEnd : left = [] := by
      rcases isLeft with rfl | ⟨_, _, same⟩
      · rfl
      · cases same
    exact ⟨issue, position, (tells.alone (by decide +kernel) atEnd (by decide +kernel) {}).2⟩

end DaxScript
