import DaxScript.Text.LetterCase

/-!
# Formats of measures

A measure may say how its values are to be shown: one of ten named formats, and three attributes
that refine it.
-/

set_option autoImplicit false

namespace DaxScript

/-- How the values of a measure are shown. -/
inductive Format where
  | general
  | numberWhole
  | numberDecimal
  | percentage
  | scientific
  | currency
  | dateTimeCustom
  | dateTimeShortDatePattern
  | dateTimeGeneral
  | text
  deriving DecidableEq

namespace Format

/-- The name of a format. -/
def name : Format → String
  | general => "General"
  | numberWhole => "NumberWhole"
  | numberDecimal => "NumberDecimal"
  | percentage => "Percentage"
  | scientific => "Scientific"
  | currency => "Currency"
  | dateTimeCustom => "DateTimeCustom"
  | dateTimeShortDatePattern => "DateTimeShortDatePattern"
  | dateTimeGeneral => "DateTimeGeneral"
  | text => "Text"

/-- All formats. -/
def all : List Format :=
  [general, numberWhole, numberDecimal, percentage, scientific, currency, dateTimeCustom,
    dateTimeShortDatePattern, dateTimeGeneral, text]

/-- The format that a word names, in any letter case. -/
def ofWord? (word : String) : Option Format :=
  all.find? fun format => sameIgnoringCase format.name word

end Format

/-- The formatting of a measure. -/
structure CalculationProperty where
  format : Format
  /-- What the calculation belongs to. -/
  calculationType : String
  /-- The number of decimal places. -/
  accuracy : Option Nat
  thousandSeparator : Option Bool
  /-- A pattern such as `#,0.00`. -/
  formatString : Option String
  deriving DecidableEq

/-- A format without attributes.  The calculations of a script are all members of the cube. -/
def CalculationProperty.ofFormat (format : Format) : CalculationProperty :=
  ⟨format, "Member", none, none, none⟩

/-- The names of the attributes that refine a format. -/
inductive AttributeName where
  | accuracy
  | thousandSeparator
  | formatString
  deriving DecidableEq

namespace AttributeName

/-- How an attribute is written. -/
def name : AttributeName → String
  | accuracy => "Accuracy"
  | thousandSeparator => "ThousandSeparator"
  | formatString => "Format"

/-- All attribute names. -/
def all : List AttributeName :=
  [accuracy, thousandSeparator, formatString]

/-- The attribute that a word names, in any letter case. -/
def ofWord? (word : String) : Option AttributeName :=
  all.find? fun known => sameIgnoringCase known.name word

end AttributeName

/-- An attribute with its value. -/
inductive Attribute where
  | accuracy (places : Nat)
  | thousandSeparator (shown : Bool)
  | formatString (pattern : String)
  deriving DecidableEq

namespace CalculationProperty

/-- Whether an attribute of this name has a value. -/
def has (property : CalculationProperty) : AttributeName → Bool
  | .accuracy => property.accuracy.isSome
  | .thousandSeparator => property.thousandSeparator.isSome
  | .formatString => property.formatString.isSome

/-- Gives an attribute its value. -/
def set (property : CalculationProperty) : Attribute → CalculationProperty
  | .accuracy places => { property with accuracy := some places }
  | .thousandSeparator shown => { property with thousandSeparator := some shown }
  | .formatString pattern => { property with formatString := some pattern }

end CalculationProperty

end DaxScript
