import DaxScript.Text.LetterCase

/-!
# Keywords

Twenty words have a meaning of their own.  They are recognised in any letter case and shown in
upper case.
-/

set_option autoImplicit false

namespace DaxScript

/-- A word with a meaning of its own. -/
inductive Keyword where
  | create | measure | define | evaluate
  | order | sortBy | ascending | descending
  | var | result
  | calculation | property
  | dataTable
  | trueValue | falseValue | blank
  | logicalNot | logicalAnd | logicalOr | within
  deriving DecidableEq

namespace Keyword

/-- How a keyword is shown. -/
def name : Keyword → String
  | create => "CREATE"
  | measure => "MEASURE"
  | define => "DEFINE"
  | evaluate => "EVALUATE"
  | order => "ORDER"
  | sortBy => "BY"
  | ascending => "ASC"
  | descending => "DESC"
  | var => "VAR"
  | result => "RETURN"
  | calculation => "CALCULATION"
  | property => "PROPERTY"
  | dataTable => "DATATABLE"
  | trueValue => "TRUE"
  | falseValue => "FALSE"
  | blank => "BLANK"
  | logicalNot => "NOT"
  | logicalAnd => "AND"
  | logicalOr => "OR"
  | within => "IN"

/-- All keywords. -/
def all : List Keyword :=
  [create, measure, define, evaluate, order, sortBy, ascending, descending, var, result,
    calculation, property, dataTable, trueValue, falseValue, blank, logicalNot, logicalAnd,
    logicalOr, within]

/-- The keyword that a word spells, in any letter case. -/
def ofWord? (word : String) : Option Keyword :=
  all.find? fun keyword => sameIgnoringCase keyword.name word

/-- Whether a keyword begins a statement, so that it also ends the one before. -/
def startsStatement : Keyword → Bool
  | create | define | evaluate => true
  | _ => false

/-- Every keyword is found by its own name. -/
theorem ofWord?_name (keyword : Keyword) : ofWord? keyword.name = some keyword := by
  cases keyword <;> decide +kernel

end Keyword

end DaxScript
