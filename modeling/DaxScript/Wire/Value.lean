import DaxScript.Number.Numeral

/-!
# Values on the wire

Diagnostics, measures and outlines are handed to other programs as values of a common data format
with numbers, texts, lists and records.  A record is known by its fields: their order means
nothing, and a field that is missing reads like one that is `null`.  A list of what the fields hold,
one after another as they are declared, stands for the record as well.
-/

set_option autoImplicit false

namespace DaxScript.Wire

/-- A value of the data format. -/
inductive Value where
  | null
  | boolean (value : Bool)
  /-- A number written with digits alone, behind a minus or not. -/
  | integer (value : Int)
  /-- Any other number as it is written: with a fraction, with an exponent, or as `-0`. -/
  | decimal (spelling : String)
  | text (content : String)
  | list (items : List Value)
  | record (fields : List (String × Value))

namespace Value

/-- The number that a numeral writes.  No numeral with a point or an exponent writes an integer,
whatever its amount is, and neither does `-0`, whose sign no integer has. -/
def ofNumeral (spelling : List Char) : Value :=
  match spelling with
  | '-' :: digits =>
    if digits.all Char.isDigit && Numeral.wholeNumber digits != 0 then
      integer (.negOfNat (Numeral.wholeNumber digits))
    else decimal (String.ofList spelling)
  | digits =>
    if digits.all Char.isDigit then integer (.ofNat (Numeral.wholeNumber digits))
    else decimal (String.ofList spelling)

/-- What a field of a record holds, `null` when there is none of the name. -/
def fieldOf (fields : List (String × Value)) (name : String) : Value :=
  (fields.lookup name).getD null

/-- What the fields of these names hold.  A list stands for a record only if it has one item for
each of the names. -/
def fields? (names : List String) : Value → Option (List Value)
  | record fields => some (names.map (fieldOf fields))
  | list items => if items.length = names.length then some items else none
  | _ => none

/-! ## Fields are told apart by name -/

theorem fieldOf_cons_self (fields : List (String × Value)) (name : String) (value : Value) :
    fieldOf ((name, value) :: fields) name = value := by
  rw [fieldOf, List.lookup_cons_self]
  rfl

theorem fieldOf_cons_of_ne {other name : String} (differs : other ≠ name)
    (fields : List (String × Value)) (value : Value) :
    fieldOf ((name, value) :: fields) other = fieldOf fields other := by
  rw [fieldOf, List.lookup_cons, beq_false_of_ne differs]
  rfl

/-- A record with one field for each of the names holds what was put into it. -/
theorem fields?_record_zip : ∀ {names : List String} {values : List Value}, names.Nodup →
    names.length = values.length → (record (names.zip values)).fields? names = some values
  | [], [], _, _ => rfl
  | name :: names, value :: values, distinct, sameLength => by
    have others : names.map (fieldOf (names.zip values)) = values :=
      Option.some.inj (fields?_record_zip (List.nodup_cons.mp distinct).2 (Nat.succ.inj sameLength))
    have skipped : names.map (fieldOf ((name, value) :: names.zip values)) =
        names.map (fieldOf (names.zip values)) := by
      apply List.map_congr_left
      intro other listed
      have differs : other ≠ name := fun same => (List.nodup_cons.mp distinct).1 (same ▸ listed)
      exact fieldOf_cons_of_ne differs _ _
    rw [fields?, List.zip_cons_cons, List.map_cons, fieldOf_cons_self, skipped, others]

end Value

end DaxScript.Wire
