import DaxScript.Grammar.Expression
import DaxScript.Measure

/-!
# Measure definitions

A measure definition names a table and a measure, gives an expression, and may end with a
`CALCULATION PROPERTY` clause: a format and attributes in any order, each at most once.

The tokens for the names, the format and the values are read before they are judged, so a token
that is refused there is not read again when reading resumes.
-/

set_option autoImplicit false

namespace DaxScript

/-- The largest number of decimal places that can be asked for. -/
def maxAccuracy : Nat := 0xFFFFFFFF

namespace AttributeName

/-- The attribute with the value that a token stands for, if it is one of the right type. -/
def withValue? : AttributeName → TokenKind → Option Attribute
  | accuracy, .number value =>
    value.toNat?.bind fun places => if places ≤ maxAccuracy then some (.accuracy places) else none
  | thousandSeparator, .keyword .trueValue => some (.thousandSeparator true)
  | thousandSeparator, .keyword .falseValue => some (.thousandSeparator false)
  | formatString, .quotedName pattern => some (.formatString pattern)
  | formatString, .text pattern => some (.formatString pattern)
  | _, _ => none

/-- What is wrong with a value of another type. -/
def valueIssue : AttributeName → Issue
  | accuracy => .accuracyValue
  | thousandSeparator => .thousandSeparatorValue
  | formatString => .formatStringValue

end AttributeName

namespace Production

/-- Reads the name of a table, which may be any word. -/
def measureTable (tokens : List Token) : Reading Token 1 tokens :=
  match tokens with
  | [] => .error (reject [] (.unexpected .endOfInput .tableName))
  | token :: rest =>
    match token.kind with
    | .identifier _ | .keyword _ => .ok (.single token token rest)
    | .quotedName name =>
      if name.isEmpty then .error (reject (token :: rest) .emptyTableName)
      else .ok (.single token token rest)
    | kind => .error (reject (token :: rest) (.unexpected kind .tableName))

/-- Reads the name of a measure. -/
def measureName (tokens : List Token) : Reading Token 1 tokens :=
  match tokens with
  | [] => .error (reject [] (.unexpected .endOfInput .measureName))
  | token :: rest =>
    match token.kind with
    | .bracketName name =>
      if name.isEmpty then .error (reject (token :: rest) .emptyMeasureName)
      else .ok (.single token token rest)
    | kind => .error (reject (token :: rest) (.unexpected kind .measureName))

/-- Reads the name of a format. -/
def format (tokens : List Token) : Reading Format 1 tokens :=
  match tokens with
  | [] => .error (reject [] (.unknownFormat ""))
  | token :: rest =>
    let format? := match token.kind with
      | .identifier word => Format.ofWord? word
      | _ => none
    match format? with
    | some format => .ok (.single format token rest)
    | none => .error (reject (token :: rest) (.unknownFormat token.spelling))

/-- Whether a token is a plain name. -/
def isIdentifier : TokenKind → Bool
  | .identifier _ => true
  | _ => false

/-- Reads an attribute given by its key and adds it to a property.  The value is read whatever
it is; then an unknown key, a value of the wrong type and an attribute given twice are refused,
in this order. -/
def formatAttributeOf (property : CalculationProperty) (key : String) (keyToken : Token)
    (rest : List Token) : Reading CalculationProperty 1 (keyToken :: rest) := do
  let equals ← symbol .equal rest
  let value := equals.rest
  let refuseKey (issue : Issue) : Refusal :=
    ⟨issue, some keyToken.position, value.length - 1, value.length⟩
  match AttributeName.ofWord? key with
  | none => .error (refuseKey (.unknownAttribute key))
  | some name =>
    match name.withValue? (nextKind value) with
    | none => .error (reject value name.valueIssue)
    | some assigned =>
      if property.has name then .error (refuseKey (.duplicateAttribute key))
      else .ok ⟨property.set assigned, value.tail, by
        have := equals.fits
        simp only [List.length_tail, List.length_cons, value]
        omega⟩

/-- Reads an attribute and adds it to a property. -/
def formatAttribute (property : CalculationProperty) (tokens : List Token) :
    Reading CalculationProperty 1 tokens :=
  match tokens with
  | [] => .error (refuse [] (.unknownAttribute ""))
  | token :: rest =>
    match token.kind with
    | .identifier key => formatAttributeOf property key token rest
    | _ => .error (refuse (token :: rest) (.unknownAttribute token.spelling))

/-- Reads `CALCULATION PROPERTY format key = value ...`. -/
def calculationProperty (tokens : List Token) : Reading CalculationProperty 1 tokens := do
  let first ← keyword .calculation tokens
  let second ← keyword .property first.rest
  let format ← format second.rest
  let property ← foldWhile isIdentifier formatAttribute (.ofFormat format.value) format.rest
  .ok ⟨property.value, property.rest, by
    have := first.fits
    have := second.fits
    have := format.fits
    have := property.fits
    omega⟩

/-- Reads a `CALCULATION PROPERTY` clause, if there is one. -/
def calculationProperty? (tokens : List Token) : Reading (Option CalculationProperty) 0 tokens :=
  if isKeyword .calculation (nextKind tokens) then do
    let property ← calculationProperty tokens
    .ok (property.weaken.map some)
  else .ok (.nothing none tokens)

/-- Reads `table[name] = expression`, with the clause that may follow. -/
def measureClause (start : Nat) (tokens : List Token) : Reading MeasureClause 1 tokens := do
  let table ← measureTable tokens
  let name ← measureName table.rest
  let equals ← symbol .equal name.rest
  let body ← expression equals.rest
  let property ← calculationProperty? body.rest
  .ok ⟨⟨start, table.value, name.value, body.value, property.value⟩, property.rest, by
    have := table.fits
    have := name.fits
    have := equals.fits
    have := body.fits
    have := property.fits
    omega⟩

end Production

end DaxScript
