import DaxScript.Wire.Value

/-!
# Writing and reading values

A codec writes the members of a type as values on the wire and reads them back.  Reading is
strict about what a value is, for a number is never taken for a text, and lenient about how members
are laid out: a record may hold more than the fields that are asked for, or be a list of what they
hold, and a name may stand alone or as the only field of a record.
-/

set_option autoImplicit false

namespace DaxScript.Wire

/-- How a type is written and read. -/
structure Codec (α : Type) where
  encode : α → Value
  decode? : Value → Option α

namespace Codec

variable {α : Type}

def boolean : Codec Bool where
  encode := .boolean
  decode?
    | .boolean value => some value
    | _ => none

def text : Codec String where
  encode := .text
  decode?
    | .text content => some content
    | _ => none

/-- Whole numbers that fit into a number of bits, without a sign. -/
def natural (bits : Nat) : Codec Nat where
  encode number := .integer (.ofNat number)
  decode?
    | .integer (.ofNat number) => if number < 1 <<< bits then some number else none
    | _ => none

/-- A choice among finitely many members, written by name.  Letter case counts.  The name of a
field that holds nothing is read as well, where it is the only one. -/
def named (members : List α) (name : α → String) : Codec α where
  encode member := .text (name member)
  decode?
    | .text word | .record [(word, .null)] => members.find? fun member => name member == word
    | _ => none

/-- A member or nothing, which is written as `null`. -/
def optional (codec : Codec α) : Codec (Option α) where
  encode member? := (member?.map codec.encode).getD .null
  decode?
    | .null => some none
    | value => (codec.decode? value).map some

def list (codec : Codec α) : Codec (List α) where
  encode members := .list (members.map codec.encode)
  decode?
    | .list items => items.mapM codec.decode?
    | _ => none

/-- A record of fields with these names, given by what they hold in this order. -/
def record (names : List String) (encode : α → List Value) (decode? : List Value → Option α) :
    Codec α where
  encode member := .record (names.zip (encode member))
  decode? value := (value.fields? names).bind decode?

/-- Byte offsets and counts. -/
def offset : Codec Nat := natural 64

/-- Lines, columns and decimal places. -/
def small : Codec Nat := natural 32

/-! ## What is written is read back -/

theorem decode?_encode_boolean (value : Bool) :
    boolean.decode? (boolean.encode value) = some value := rfl

theorem decode?_encode_text (content : String) :
    text.decode? (text.encode content) = some content := rfl

theorem decode?_encode_natural {bits number : Nat} (fits : number < 1 <<< bits) :
    (natural bits).decode? ((natural bits).encode number) = some number :=
  if_pos fits

/-- Different names tell the members of a choice apart. -/
theorem decode?_encode_named {members : List α} {name : α → String} {member : α}
    (listed : member ∈ members)
    (distinct : ∀ other ∈ members, name other = name member → other = member) :
    (named members name).decode? ((named members name).encode member) = some member := by
  have some : ∃ found, members.find? (fun other => name other == name member) = some found := by
    apply Option.isSome_iff_exists.mp
    rw [List.find?_isSome]
    exact ⟨member, listed, beq_self_eq_true _⟩
  obtain ⟨found, search⟩ := some
  have sameName : name found = name member := by
    simpa using List.find?_some search
  obtain rfl := distinct found (List.mem_of_find?_eq_some search) sameName
  exact search

end Codec

end DaxScript.Wire
