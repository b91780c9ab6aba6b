import DaxScript.Proofs.Grammar.Spans

/-!
# Rules for statements

The rules for the statements that are read to their end, and for their parts.  Each of them looks
at most at the token behind what it reads, and a token that ends a statement is like any other
that does (`Rule.Statement.cuttable`): the end of the input, a semicolon and a keyword that begins
the next statement are the same to the statement before.

A measure that a statement defines ends with one of its tokens (`Rule.Statement.stops`).
-/

set_option autoImplicit false

namespace DaxScript

open Production

/-! ## What single tokens stand for -/

/-- Whether a token may be the table of a measure that is defined. -/
def TokenKind.namesTable : TokenKind → Bool
  | identifier _ => true
  | keyword _ => true
  | quotedName name => !name.isEmpty
  | _ => false

/-- Whether a token may be the name of a measure that is defined. -/
def TokenKind.namesMeasure : TokenKind → Bool
  | bracketName name => !name.isEmpty
  | _ => false

/-- The direction of a sort key that a token stands for. -/
def Direction.ofKind? : TokenKind → Option Direction
  | .keyword .ascending => some .ascending
  | .keyword .descending => some .descending
  | _ => none

namespace Rule

/-! ## Measure clauses -/

/-- An attribute, added to a property that does not have it. -/
inductive FormatAttribute (property : CalculationProperty) : Rule CalculationProperty where
  | intro {key equals value : Token} {word : String} {name : AttributeName}
      {assigned : Attribute} {next : TokenKind} (keyed : key.kind = .identifier word)
      (sign : equals.kind = .symbol .equal) (known : AttributeName.ofWord? word = some name)
      (typed : name.withValue? value.kind = some assigned) (new : property.has name = false) :
      FormatAttribute property [key, equals, value] (property.set assigned) next

/-- `CALCULATION PROPERTY format key = value ...` -/
inductive Formatting : Rule CalculationProperty where
  | intro {first second named : Token} {word : String} {format : Format} {used : List Token}
      {property : CalculationProperty} {next : TokenKind}
      (opens : first.kind = .keyword .calculation) (goesOn : second.kind = .keyword .property)
      (names : named.kind = .identifier word) (known : Format.ofWord? word = some format)
      (attributes : Folded isIdentifier FormatAttribute (.ofFormat format) used property next) :
      Formatting (first :: second :: named :: used) property next

/-- A formatting, or none where the keyword is missing. -/
inductive MaybeFormatting : Rule (Option CalculationProperty) where
  | absent {next : TokenKind} (absent : isKeyword .calculation next = false) :
      MaybeFormatting [] none next
  | present {used : List Token} {property : CalculationProperty} {next : TokenKind}
      (reading : Formatting used property next) : MaybeFormatting used (some property) next

/-- `table[name] = expression` and a formatting, in a definition that began at an offset. -/
inductive MeasureClause (start : Nat) : Rule DaxScript.MeasureClause where
  | intro {table name equals : Token} {used later : List Token} {body : Expr}
      {property? : Option CalculationProperty} {next : TokenKind}
      (tableNamed : table.kind.namesTable = true) (measureNamed : name.kind.namesMeasure = true)
      (sign : equals.kind = .symbol .equal)
      (reading : ExpressionOfLevel 0 used body (kindAfter later next))
      (formatted : MaybeFormatting later property? next) :
      MeasureClause start (table :: name :: equals :: (used ++ later))
        ⟨start, table, name, body, property?⟩ next

/-! ## Queries -/

/-- An expression, and a direction if there is one. -/
inductive SortKey : Rule (Expr × Option Direction) where
  | plain {used : List Token} {value : Expr} {next : TokenKind}
      (reading : ExpressionOfLevel 0 used value next)
      (undirected : Direction.ofKind? next = none) : SortKey used (value, none) next
  | directed {used : List Token} {value : Expr} {token : Token} {direction : Direction}
      {next : TokenKind} (reading : ExpressionOfLevel 0 used value token.kind)
      (directs : Direction.ofKind? token.kind = some direction) :
      SortKey (used ++ [token]) (value, some direction) next

/-- `ORDER BY key, ...`, or nothing where the keyword is missing. -/
inductive Ordering : Rule (List (Expr × Option Direction)) where
  | absent {next : TokenKind} (absent : isKeyword .order next = false) : Ordering [] [] next
  | present {first second : Token} {used : List Token} {keys : List (Expr × Option Direction)}
      {next : TokenKind} (opens : first.kind = .keyword .order)
      (goesOn : second.kind = .keyword .sortBy) (items : Separated SortKey used keys next) :
      Ordering (first :: second :: used) keys next

/-- `EVALUATE table ORDER BY key, ...` -/
inductive Query : Rule DaxScript.Query where
  | intro {word : Token} {used later : List Token} {table : Expr}
      {keys : List (Expr × Option Direction)} {next : TokenKind}
      (opens : word.kind = .keyword .evaluate)
      (reading : ExpressionOfLevel 0 used table (kindAfter later next))
      (ordered : Ordering later keys next) (ends : endsStatement next = true) :
      Query (word :: (used ++ later)) ⟨table, keys⟩ next

/-! ## Statements -/

/-- A definition of a block. -/
inductive Definition : Rule DaxScript.Definition where
  | measure {word : Token} {used : List Token} {clause : DaxScript.MeasureClause}
      {next : TokenKind} (opens : word.kind = .keyword .measure)
      (reading : MeasureClause word.span.start used clause next) :
      Definition (word :: used) (.measure clause) next
  | binding {used : List Token} {name : String} {value : Expr} {next : TokenKind}
      (reading : Binding (ExpressionOfLevel 0) used (name, value) next) :
      Definition used (.binding name value) next

/-- The statements that are read to their end. -/
inductive Statement : Rule DaxScript.Statement where
  | createMeasure {create word : Token} {used : List Token} {clause : DaxScript.MeasureClause}
      {next : TokenKind} (creates : create.kind = .keyword .create)
      (opens : word.kind = .keyword .measure)
      (reading : MeasureClause create.span.start used clause next)
      (ends : endsStatement next = true) :
      Statement (create :: word :: used) (.createMeasure clause) next
  | define {word : Token} {used later : List Token} {definitions : List DaxScript.Definition}
      {query : DaxScript.Query} {next : TokenKind} (opens : word.kind = .keyword .define)
      (items : Repeated startsDefinition Definition used definitions (kindAfter later next))
      (some : definitions ≠ []) (reading : Query later query next) :
      Statement (word :: (used ++ later)) (.define definitions query) next
  | evaluate {used : List Token} {query : DaxScript.Query} {next : TokenKind}
      (reading : Query used query next) : Statement used (.evaluate query) next
  | expression {equals : Token} {used : List Token} {value : Expr} {next : TokenKind}
      (sign : equals.kind = .symbol .equal) (reading : ExpressionOfLevel 0 used value next)
      (ends : endsStatement next = true) :
      Statement (equals :: used) (.expression value) next

/-! ## Statements may be cut off behind -/

/-- A token that ends a statement goes on with none of its last parts. -/
theorem noPart_of_endsStatement {last : TokenKind} (ends : endsStatement last = true) :
    isIdentifier last = false ∧ isKeyword .calculation last = false ∧
      Direction.ofKind? last = none ∧ isKeyword .order last = false := by
  cases last with
  | keyword word => cases word <;> first | exact ⟨rfl, rfl, rfl, rfl⟩ | cases ends
  | identifier => cases ends
  | _ => exact ⟨rfl, rfl, rfl, rfl⟩

theorem Formatting.cuttable : Formatting.Cuttable := by
  intro used property next last reading ends
  cases reading with
  | intro opens goesOn names known attributes =>
    refine .intro opens goesOn names known (Folded.cuttable ?_ ?_ ?_ _ attributes ends)
    · intro state used value next last reading _
      cases reading with
      | intro keyed sign known typed new => exact .intro keyed sign known typed new
    · intro state middle used next reading
      cases reading with
      | intro => exact List.cons_ne_nil _ _
    · intro last ends
      exact (noPart_of_endsStatement ends).1

theorem MaybeFormatting.cuttable : MaybeFormatting.Cuttable := by
  intro used property? next last reading ends
  cases reading with
  | absent => exact .absent (noPart_of_endsStatement ends).2.1
  | present reading => exact .present (Formatting.cuttable reading ends)

theorem MeasureClause.cuttable (start : Nat) : (MeasureClause start).Cuttable := by
  intro used clause next last reading ends
  cases reading with
  | intro tableNamed measureNamed sign reading formatted =>
    exact .intro tableNamed measureNamed sign
      ((expressionOfLevel_cuttable 0).behind reading ends)
      (MaybeFormatting.cuttable formatted ends)

theorem SortKey.cuttable : SortKey.Cuttable := by
  intro used key next last reading ends
  cases reading with
  | plain reading =>
    exact .plain (expressionOfLevel_cuttable 0 reading ends)
      (noPart_of_endsStatement ends).2.2.1
  | directed reading directs => exact .directed reading directs

theorem Ordering.cuttable : Ordering.Cuttable := by
  intro used keys next last reading ends
  cases reading with
  | absent => exact .absent (noPart_of_endsStatement ends).2.2.2
  | present opens goesOn items =>
    exact .present opens goesOn (Separated.cuttable SortKey.cuttable items ends)

theorem Query.cuttable : Query.Cuttable := by
  intro used query next last reading ends
  cases reading with
  | intro opens reading ordered =>
    exact .intro opens ((expressionOfLevel_cuttable 0).behind reading ends)
      (Ordering.cuttable ordered ends) ends

/-- **To a statement all tokens that may end it are the same.** -/
theorem Statement.cuttable : Statement.Cuttable := by
  intro used statement next last reading ends
  cases reading with
  | createMeasure creates opens reading =>
    exact .createMeasure creates opens (MeasureClause.cuttable _ reading ends) ends
  | @define word used later definitions query _ opens items some reading =>
    -- A query is never empty, so the definitions are followed by its first token in any case.
    cases reading with
    | intro evaluates reading ordered =>
      exact .define opens items some
        (Query.cuttable (.intro evaluates reading ordered ‹_›) ends)
  | evaluate reading => exact .evaluate (Query.cuttable reading ends)
  | expression sign reading =>
    exact .expression sign (expressionOfLevel_cuttable 0 reading ends) ends

/-- A statement ends before a token that may end it. -/
theorem Statement.ends {used : List Token} {statement : DaxScript.Statement} {next : TokenKind}
    (reading : Statement used statement next) : endsStatement next = true := by
  have ofQuery {used : List Token} {query : DaxScript.Query} (reading : Query used query next) :
      endsStatement next = true := by
    cases reading with
    | intro _ _ _ ends => exact ends
  cases reading with
  | createMeasure _ _ _ ends => exact ends
  | define _ _ _ reading => exact ofQuery reading
  | evaluate reading => exact ofQuery reading
  | expression _ _ ends => exact ends

/-! ## Where measures end -/

theorem MeasureClause.stops {start : Nat} {used : List Token} {clause : DaxScript.MeasureClause}
    {next : TokenKind} (reading : MeasureClause start used clause next)
    (ordered : InOrder used) : ∃ token ∈ used, clause.span.stop = token.span.stop := by
  cases reading with
  | @intro table name equals used later body property? _ _ _ _ reading _ =>
    have inner : InOrder used := ordered.tail.tail.tail.left
    obtain ⟨first, last, _, isLast, covered⟩ := reading.covers inner
    have member : last ∈ used := List.mem_of_getLast? isLast
    exact ⟨last, by simp [member], by rw [MeasureClause.span, covered]⟩

theorem definitions_stop {used : List Token} {definitions : List DaxScript.Definition}
    {next : TokenKind} (reading : Repeated startsDefinition Definition used definitions next)
    (ordered : InOrder used) :
    ∀ clause ∈ definitions.filterMap DaxScript.Definition.measure?,
      ∃ token ∈ used, clause.span.stop = token.span.stop := by
  induction reading with
  | done => simp
  | @more used later definition definitions next _ reading others ih =>
    intro clause member
    have later : clause ∈ definitions.filterMap DaxScript.Definition.measure? →
        ∃ token ∈ used ++ later, clause.span.stop = token.span.stop := by
      intro member
      obtain ⟨token, isLater, stop⟩ := ih ordered.right clause member
      exact ⟨token, List.mem_append_right _ isLater, stop⟩
    cases reading with
    | binding => exact later member
    | @measure word used own _ _ reading =>
      rcases List.mem_cons.mp member with rfl | member
      · obtain ⟨token, isOwn, stop⟩ := reading.stops ordered.left.tail
        exact ⟨token, List.mem_append_left _ (.tail _ isOwn), stop⟩
      · exact later member

/-- **A measure that a statement defines ends with one of its tokens.** -/
theorem Statement.stops {used : List Token} {statement : DaxScript.Statement} {next : TokenKind}
    (reading : Statement used statement next) (ordered : InOrder used) :
    ∀ clause ∈ statement.measures, ∃ token ∈ used, clause.span.stop = token.span.stop := by
  intro clause member
  cases reading with
  | createMeasure _ _ reading =>
    obtain rfl : clause = _ := List.mem_singleton.mp member
    obtain ⟨token, isOwn, stop⟩ := reading.stops ordered.tail.tail
    exact ⟨token, .tail _ (.tail _ isOwn), stop⟩
  | define _ items =>
    obtain ⟨token, isOwn, stop⟩ := definitions_stop items ordered.tail.left clause member
    exact ⟨token, .tail _ (List.mem_append_left _ isOwn), stop⟩
  | evaluate => cases member
  | expression => cases member

end Rule

end DaxScript
