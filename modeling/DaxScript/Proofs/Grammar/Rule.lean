import Mathlib
import DaxScript.Grammar.Statement

/-!
# Rules of the grammar

A production reads tokens off the front of a list.  A rule says what is read without saying how:
it relates the tokens that make up a value to the value.  What stands behind these tokens matters
to a rule only through the kind of the next token, so that kind is the third thing a rule is
about.

The rules for repetition are here, and two ways in which rules compare.  One rule is within
another when the other has all of its readings.  A rule is cuttable when its readings stay the
same once the input is cut off behind them, that is, when the next token becomes one that ends a
statement.
-/

set_option autoImplicit false

namespace DaxScript

/-- Which tokens make up which value, given the kind of the token behind them. -/
abbrev Rule (α : Type) : Type :=
  List Token → α → TokenKind → Prop

/-- The kind of the first of some tokens, or the given one when there are none. -/
def kindAfter (tokens : List Token) (next : TokenKind) : TokenKind :=
  match tokens with
  | [] => next
  | token :: _ => token.kind

@[simp] theorem kindAfter_nil (next : TokenKind) : kindAfter [] next = next := rfl

@[simp] theorem kindAfter_cons (token : Token) (tokens : List Token) (next : TokenKind) :
    kindAfter (token :: tokens) next = token.kind := rfl

@[simp] theorem kindAfter_append (first second : List Token) (next : TokenKind) :
    kindAfter (first ++ second) next = kindAfter first (kindAfter second next) := by
  cases first <;> rfl

@[simp] theorem nextKind_nil : nextKind [] = .endOfInput := rfl

@[simp] theorem nextKind_cons (token : Token) (tokens : List Token) :
    nextKind (token :: tokens) = token.kind := rfl

@[simp] theorem nextKind_append (tokens rest : List Token) :
    nextKind (tokens ++ rest) = kindAfter tokens (nextKind rest) := by
  cases tokens <;> rfl

theorem nextKind_eq_kindAfter (tokens : List Token) :
    nextKind tokens = kindAfter tokens .endOfInput := by
  cases tokens <;> rfl

namespace Rule

variable {α β : Type}

/-- Every reading of the first rule is one of the second. -/
def Within (rule other : Rule α) : Prop :=
  ∀ ⦃used : List Token⦄ ⦃value : α⦄ ⦃next : TokenKind⦄,
    rule used value next → other used value next

/-- The readings stay the same when the next token becomes one of certain kinds. -/
def StaysBefore (kinds : TokenKind → Prop) (rule : Rule α) : Prop :=
  ∀ ⦃used : List Token⦄ ⦃value : α⦄ ⦃next last : TokenKind⦄,
    rule used value next → kinds last → rule used value last

/-- They stay the same as well when the tokens behind further ones change. -/
theorem StaysBefore.behind {kinds : TokenKind → Prop} {rule : Rule α}
    (stays : rule.StaysBefore kinds) {used : List Token} {value : α} {later : List Token}
    {next last : TokenKind} (reading : rule used value (kindAfter later next))
    (isOne : kinds last) : rule used value (kindAfter later last) := by
  cases later with
  | nil => exact stays reading isOne
  | cons => exact reading

/-- Of the tokens behind the readings only the first ones may be kept. -/
theorem StaysBefore.keep {kinds : TokenKind → Prop} {rule : Rule α} (stays : rule.StaysBefore kinds)
    {used : List Token} {value : α} {own after : List Token} {next last : TokenKind}
    (reading : rule used value (kindAfter (own ++ after) next)) (isOne : kinds last) :
    rule used value (kindAfter own last) := by
  cases own with
  | nil => exact stays reading isOne
  | cons => exact reading

/-- The readings stay the same when what is behind them is cut off. -/
def Cuttable (rule : Rule α) : Prop :=
  ∀ ⦃used : List Token⦄ ⦃value : α⦄ ⦃next last : TokenKind⦄,
    rule used value next → Production.endsStatement last = true → rule used value last

/-- A reading may be cut off behind further tokens as well. -/
theorem Cuttable.behind {rule : Rule α} (cuttable : rule.Cuttable) {used : List Token} {value : α}
    {later : List Token} {next last : TokenKind}
    (reading : rule used value (kindAfter later next))
    (ends : Production.endsStatement last = true) : rule used value (kindAfter later last) :=
  StaysBefore.behind cuttable reading ends

/-- Of the tokens behind a reading only the first ones may be kept. -/
theorem Cuttable.keep {rule : Rule α} (cuttable : rule.Cuttable) {used : List Token} {value : α}
    {own after : List Token} {next : TokenKind}
    (reading : rule used value (kindAfter (own ++ after) next)) :
    rule used value (kindAfter own .endOfInput) :=
  StaysBefore.keep cuttable reading rfl

/-! ## Repetition -/

/-- A comma and an item. -/
inductive AfterComma (item : Rule α) : Rule α where
  | intro {comma : Token} {used : List Token} {value : α} {next : TokenKind}
      (sign : comma.kind = .symbol .comma) (reading : item used value next) :
      AfterComma item (comma :: used) value next

/-- Items for as long as the next token asks for one. -/
inductive Repeated (continues : TokenKind → Bool) (item : Rule α) : Rule (List α) where
  | done {next : TokenKind} (stops : continues next = false) :
      Repeated continues item [] [] next
  | more {used later : List Token} {value : α} {values : List α} {next : TokenKind}
      (goesOn : continues (kindAfter used (kindAfter later next)) = true)
      (reading : item used value (kindAfter later next))
      (others : Repeated continues item later values next) :
      Repeated continues item (used ++ later) (value :: values) next

/-- Items with a comma in front of each. -/
abbrev CommaSeparated (item : Rule α) : Rule (List α) :=
  Repeated (Production.isSymbol .comma) (AfterComma item)

/-- Items with commas between them, at least one. -/
inductive Separated (item : Rule α) : Rule (List α) where
  | intro {used later : List Token} {value : α} {values : List α} {next : TokenKind}
      (reading : item used value (kindAfter later next))
      (others : CommaSeparated item later values next) :
      Separated item (used ++ later) (value :: values) next

/-- Nothing before the closing sign, or items with commas between them. -/
inductive SeparatedUnless (close : Symbol) (item : Rule α) : Rule (List α) where
  | none {next : TokenKind} (closes : next = .symbol close) :
      SeparatedUnless close item [] [] next
  | some {used : List Token} {values : List α} {next : TokenKind}
      (opens : kindAfter used next ≠ .symbol close) (items : Separated item used values next) :
      SeparatedUnless close item used values next

/-- A state taken through steps for as long as the next token asks for one. -/
inductive Folded (continues : TokenKind → Bool) (step : β → Rule β) : β → Rule β where
  | done {state : β} {next : TokenKind} (stops : continues next = false) :
      Folded continues step state [] state next
  | more {state middle last : β} {used later : List Token} {next : TokenKind}
      (goesOn : continues (kindAfter used (kindAfter later next)) = true)
      (reading : step state used middle (kindAfter later next))
      (others : Folded continues step middle later last next) :
      Folded continues step state (used ++ later) last next

/-- A single item. -/
theorem Separated.single {item : Rule α} {used : List Token} {value : α} {next : TokenKind}
    (reading : item used value next) (noComma : Production.isSymbol .comma next = false) :
    Separated item used [value] next := by
  have whole : Separated item (used ++ []) [value] next := .intro reading (.done noComma)
  rwa [List.append_nil] at whole

section Within

variable {item other : Rule α}

theorem AfterComma.mono (within : item.Within other) :
    (AfterComma item).Within (AfterComma other) := by
  intro used value next reading
  cases reading with
  | intro sign reading => exact .intro sign (within reading)

theorem Repeated.mono {continues : TokenKind → Bool} (within : item.Within other) :
    (Repeated continues item).Within (Repeated continues other) := by
  intro used values next reading
  induction reading with
  | done stops => exact .done stops
  | more goesOn reading _ ih => exact .more goesOn (within reading) ih

theorem Separated.mono (within : item.Within other) :
    (Separated item).Within (Separated other) := by
  intro used values next reading
  cases reading with
  | intro reading others => exact .intro (within reading) (Repeated.mono (.mono within) others)

theorem SeparatedUnless.mono {close : Symbol} (within : item.Within other) :
    (SeparatedUnless close item).Within (SeparatedUnless close other) := by
  intro used values next reading
  cases reading with
  | none closes => exact .none closes
  | some opens items => exact .some opens (.mono within items)

end Within

section Cuttable

variable {item : Rule α}

theorem AfterComma.cuttable (cuttable : item.Cuttable) : (AfterComma item).Cuttable := by
  intro used value next last reading ends
  cases reading with
  | intro sign reading => exact .intro sign (cuttable reading ends)

/-- A repetition is cuttable when an item is and no token that ends a statement asks for one. -/
theorem Repeated.cuttable {continues : TokenKind → Bool} (cuttable : item.Cuttable)
    (reads : ∀ {used : List Token} {value : α} {next : TokenKind},
      item used value next → used ≠ [])
    (stopsAtEnd : ∀ {last : TokenKind}, Production.endsStatement last = true →
      continues last = false) :
    (Repeated continues item).Cuttable := by
  intro used values next last reading ends
  induction reading with
  | done => exact .done (stopsAtEnd ends)
  | @more used later value values next goesOn reading others ih =>
    cases used with
    | nil => exact absurd rfl (reads reading)
    | cons token used => exact .more goesOn (cuttable.behind reading ends) ih

/-- No comma ends a statement. -/
theorem isSymbol_comma_of_endsStatement {last : TokenKind}
    (ends : Production.endsStatement last = true) : Production.isSymbol .comma last = false := by
  cases last with
  | symbol sign => cases sign <;> first | rfl | cases ends
  | _ => rfl

theorem CommaSeparated.cuttable (cuttable : item.Cuttable) : (CommaSeparated item).Cuttable := by
  refine Repeated.cuttable (AfterComma.cuttable cuttable) ?_ isSymbol_comma_of_endsStatement
  intro used value next reading
  cases reading with
  | intro => exact List.cons_ne_nil _ _

theorem Separated.cuttable (cuttable : item.Cuttable) : (Separated item).Cuttable := by
  intro used values next last reading ends
  cases reading with
  | intro reading others =>
    exact .intro (cuttable.behind reading ends) (CommaSeparated.cuttable cuttable others ends)

theorem Folded.cuttable {continues : TokenKind → Bool} {step : β → Rule β}
    (cuttable : ∀ state, (step state).Cuttable)
    (reads : ∀ {state middle : β} {used : List Token} {next : TokenKind},
      step state used middle next → used ≠ [])
    (stopsAtEnd : ∀ {last : TokenKind}, Production.endsStatement last = true →
      continues last = false) (state : β) :
    (Folded continues step state).Cuttable := by
  intro used final next last reading ends
  induction reading with
  | done => exact .done (stopsAtEnd ends)
  | @more state middle final used later next goesOn reading others ih =>
    cases used with
    | nil => exact absurd rfl (reads reading)
    | cons token used => exact .more goesOn ((cuttable state).behind reading ends) ih

end Cuttable

end Rule

end DaxScript
