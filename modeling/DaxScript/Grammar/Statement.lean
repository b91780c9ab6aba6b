import DaxScript.Grammar.MeasureClause
import DaxScript.Statement

/-!
# Statements

A statement ends before a semicolon, before a keyword that begins a statement, or with the input.
Of the statements that are passed over only the beginning is read here.
-/

set_option autoImplicit false

namespace DaxScript

/-- The word behind `CREATE` that announces a key performance indicator. -/
def keyPerformanceIndicatorWord : String := "KPI"

namespace Production

/-- Whether a statement may end before a token. -/
def endsStatement : TokenKind → Bool
  | .symbol .semicolon => true
  | .keyword word => word.startsStatement
  | .endOfInput => true
  | _ => false

/-- Reads nothing, and only where a statement may end. -/
def statementEnd (tokens : List Token) : Except Refusal Unit :=
  if endsStatement (nextKind tokens) then .ok ()
  else .error (expected tokens .statementEnd)

/-! ## Queries -/

/-- Reads the direction of a sort key, if there is one. -/
def direction? (tokens : List Token) : Reading (Option Direction) 0 tokens :=
  match tokens with
  | ⟨.keyword .ascending, _, _, _⟩ :: rest => .ok (Parsed.single (some .ascending) _ rest).weaken
  | ⟨.keyword .descending, _, _, _⟩ :: rest => .ok (Parsed.single (some .descending) _ rest).weaken
  | tokens => .ok (.nothing none tokens)

/-- Reads a sort key. -/
def sortKey (tokens : List Token) : Reading (Expr × Option Direction) 1 tokens := do
  let value ← expression tokens
  let direction ← direction? value.rest
  .ok ⟨(value.value, direction.value), direction.rest, by
    have := value.fits
    have := direction.fits
    omega⟩

/-- Reads `ORDER BY key, ...`, if there is one. -/
def ordering (tokens : List Token) : Reading (List (Expr × Option Direction)) 0 tokens :=
  if isKeyword .order (nextKind tokens) then do
    let first ← keyword .order tokens
    let second ← keyword .sortBy first.rest
    let keys ← separated sortKey second.rest
    .ok ⟨keys.value, keys.rest, by
      have := first.fits
      have := second.fits
      have := keys.fits
      omega⟩
  else .ok (.nothing [] tokens)

/-- Reads `EVALUATE table ORDER BY key, ...` up to the end of the statement. -/
def query (tokens : List Token) : Reading Query 1 tokens := do
  let first ← keyword .evaluate tokens
  let table ← expression first.rest
  let keys ← ordering table.rest
  statementEnd keys.rest
  .ok ⟨⟨table.value, keys.value⟩, keys.rest, by
    have := first.fits
    have := table.fits
    have := keys.fits
    omega⟩

/-! ## Definitions -/

/-- Whether a token begins a definition. -/
def startsDefinition (kind : TokenKind) : Bool :=
  isKeyword .measure kind || isKeyword .var kind

/-- Reads a definition, given that one comes next. -/
def definition (tokens : List Token) : Reading Definition 1 tokens :=
  if isKeyword .measure (nextKind tokens) then do
    let word ← keyword .measure tokens
    let clause ← measureClause word.value.span.start word.rest
    .ok ⟨.measure clause.value, clause.rest, by
      have := word.fits
      have := clause.fits
      omega⟩
  else do
    let binding ← binding expressionOfLevel tokens
    .ok (binding.map fun parts => .binding parts.1 parts.2)

/-- Reads a block of definitions, at least one, and the query behind it. -/
def block (tokens : List Token) : Reading (List Definition × Query) 1 tokens := do
  if !startsDefinition (nextKind tokens) then .error (expected tokens .definition)
  let definitions ← manyWhile startsDefinition definition tokens
  if !isKeyword .evaluate (nextKind definitions.rest) then
    .error (expected definitions.rest .definitionOrQuery)
  let query ← query definitions.rest
  .ok ⟨(definitions.value, query.value), query.rest, by
    have := definitions.fits
    have := query.fits
    omega⟩

/-! ## The choice between them -/

/-- Reads what follows `CREATE`.  Only measures are read to their end. -/
def creation (create : Token) (rest : List Token) : Reading Statement 1 (create :: rest) :=
  match nextKind rest with
  | .keyword .measure => do
    let word ← keyword .measure rest
    let clause ← measureClause create.span.start word.rest
    statementEnd clause.rest
    .ok ⟨.createMeasure clause.value, clause.rest, by
      have := word.fits
      have := clause.fits
      simp only [List.length_cons]
      omega⟩
  | .identifier word =>
    if sameIgnoringCase word keyPerformanceIndicatorWord then
      .error (refuse rest .keyPerformanceIndicator)
    else .ok (.single (.createOther create (.identifier word)) create rest)
  | object => .ok (.single (.createOther create object) create rest)

/-- Reads a statement given by its first token. -/
def statement (first : Token) (rest : List Token) : Reading Statement 1 (first :: rest) :=
  match first.kind with
  | .keyword .create => creation first rest
  | .keyword .define => do
    let block ← block rest
    .ok ((block.map fun parts => .define parts.1 parts.2).behind first)
  | .keyword .evaluate => do
    let query ← query (first :: rest)
    .ok (query.map .evaluate)
  | .symbol .equal => do
    let value ← expression rest
    statementEnd value.rest
    .ok ((value.map .expression).behind first)
  | _ => .ok (.single (.unsupported first) first rest)

end Production

end DaxScript
