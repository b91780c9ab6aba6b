import DaxScript.Wire.Codec
import Mathlib.Algebra.Group.Nat.Defs

/-!
# Values in other layouts

Those who hand values on may lay them out anew: the fields of a record in another order, with
further fields among them, and without the fields that hold nothing (`Relaid`).  A field is
further when none of the fields that were written has its name, so what counts as known is said by
the record itself.

A codec is faithful when it reads back what it writes in every such layout, and when whatever it
reads, in whatever form, could have been written (`Codec.Faithful`).  Codecs made of faithful
codecs are faithful; for records that is one general lemma (`Codec.faithful_record`), whose
premises speak of the values of the fields alone.
-/

set_option autoImplicit false

namespace DaxScript.Wire

/-! ## The same value in another layout -/

mutual

/-- The second value is the first one in another layout. -/
inductive Relaid : Value → Value → Prop where
  | same (value : Value) : Relaid value value
  | list {items others : List Value} (each : RelaidItems items others) :
      Relaid (.list items) (.list others)
  /-- Some of the fields that hold nothing are left out, fields of other names come in, and the
  order is any. -/
  | record {fields kept extra others : List (String × Value)} (shrunk : RelaidFields fields kept)
      (unknown : ∀ field ∈ extra, field.1 ∉ fields.map (·.1))
      (reordered : others.Perm (kept ++ extra)) : Relaid (.record fields) (.record others)

/-- The second values are the first ones, each in another layout. -/
inductive RelaidItems : List Value → List Value → Prop where
  | nil : RelaidItems [] []
  | cons {item other : Value} {items others : List Value} (first : Relaid item other)
      (later : RelaidItems items others) : RelaidItems (item :: items) (other :: others)

/-- The second fields are the first ones with what they hold in another layout, but for some that
hold nothing. -/
inductive RelaidFields : List (String × Value) → List (String × Value) → Prop where
  | nil : RelaidFields [] []
  | keep {name : String} {value other : Value} {fields kept : List (String × Value)}
      (first : Relaid value other) (later : RelaidFields fields kept) :
      RelaidFields ((name, value) :: fields) ((name, other) :: kept)
  | leaveOut (name : String) {fields kept : List (String × Value)}
      (later : RelaidFields fields kept) : RelaidFields ((name, .null) :: fields) kept

end

namespace Relaid

variable {other : Value}

theorem eq_null (relaid : Relaid .null other) : other = .null := by
  cases relaid
  rfl

theorem eq_boolean {value : Bool} (relaid : Relaid (.boolean value) other) :
    other = .boolean value := by
  cases relaid
  rfl

theorem eq_integer {value : Int} (relaid : Relaid (.integer value) other) :
    other = .integer value := by
  cases relaid
  rfl

theorem eq_text {content : String} (relaid : Relaid (.text content) other) :
    other = .text content := by
  cases relaid
  rfl

/-- What holds something holds something in every layout. -/
theorem ne_null {value : Value} (present : value ≠ .null) (relaid : Relaid value other) :
    other ≠ .null := by
  cases relaid with
  | same => exact present
  | list => exact Value.noConfusion
  | record => exact Value.noConfusion

end Relaid

theorem RelaidItems.same : (items : List Value) → RelaidItems items items
  | [] => .nil
  | item :: items => .cons (.same item) (RelaidItems.same items)

/-! ## The fields of a record in another layout -/

namespace Value

variable {fields : List (String × Value)} {name : String}

/-- The only field of a name is the one that is found. -/
theorem fieldOf_eq_of_only {value : Value} (member : (name, value) ∈ fields)
    (only : ∀ other, (name, other) ∈ fields → other = value) : fieldOf fields name = value := by
  cases found : fields.lookup name with
  | none =>
    have differs := List.lookup_eq_none_iff.mp found (name, value) member
    simp at differs
  | some other =>
    obtain ⟨front, behind, rfl, _⟩ := List.lookup_eq_some_iff.mp found
    rw [fieldOf, found]
    exact only other (by simp)

theorem fieldOf_eq_null (none : ∀ value, (name, value) ∉ fields) :
    fieldOf fields name = .null := by
  cases found : fields.lookup name with
  | none => rw [fieldOf, found, Option.getD_none]
  | some other =>
    obtain ⟨front, behind, rfl, _⟩ := List.lookup_eq_some_iff.mp found
    exact absurd (by simp) (none other)

end Value

/-- No name comes in where fields are only left out. -/
theorem RelaidFields.name_mem {fields kept : List (String × Value)}
    (shrunk : RelaidFields fields kept) {field : String × Value} (member : field ∈ kept) :
    field.1 ∈ fields.map (·.1) := by
  induction fields generalizing kept with
  | nil =>
    cases shrunk
    cases member
  | cons first fields ih =>
    cases shrunk with
    | keep same later =>
      rcases List.mem_cons.mp member with rfl | member
      · exact List.mem_cons_self
      · exact List.mem_cons_of_mem _ (ih later member)
    | leaveOut name later => exact List.mem_cons_of_mem _ (ih later member)

/-- A field is kept as the only one of its name, or it held nothing and is gone. -/
theorem RelaidFields.kept_or_gone {fields kept : List (String × Value)}
    (shrunk : RelaidFields fields kept) (distinct : (fields.map (·.1)).Nodup) {name : String}
    {value : Value} (member : (name, value) ∈ fields) :
    (∃ seen, Relaid value seen ∧ (name, seen) ∈ kept ∧
        ∀ other, (name, other) ∈ kept → other = seen) ∨
      value = .null ∧ ∀ other, (name, other) ∉ kept := by
  induction fields generalizing kept with
  | nil => cases member
  | cons first fields ih =>
    obtain ⟨fresh, laterDistinct⟩ := List.nodup_cons.mp distinct
    -- Behind the first field there is no other one of its name.
    have noOther {kept : List (String × Value)} (later : RelaidFields fields kept)
        (other : Value) : (first.1, other) ∉ kept := by
      intro isKept
      have known := later.name_mem isKept
      exact fresh known
    cases shrunk with
    | @keep own held seen _ kept same later =>
      rcases List.mem_cons.mp member with isFirst | isLater
      · cases isFirst
        refine .inl ⟨seen, same, List.mem_cons_self, fun other isKept => ?_⟩
        rcases List.mem_cons.mp isKept with isFirst | isKept
        · exact (Prod.mk.inj isFirst).2
        · exact absurd isKept (noOther later other)
      · have differs : name ≠ own := by
          rintro rfl
          exact fresh (List.mem_map.mpr ⟨_, isLater, rfl⟩)
        rcases ih later laterDistinct isLater with ⟨seen, same, isKept, only⟩ | ⟨isNull, gone⟩
        · refine .inl ⟨seen, same, List.mem_cons_of_mem _ isKept, fun other isKept => ?_⟩
          rcases List.mem_cons.mp isKept with isFirst | isKept
          · exact absurd (Prod.mk.inj isFirst).1 differs
          · exact only other isKept
        · refine .inr ⟨isNull, fun other isKept => ?_⟩
          rcases List.mem_cons.mp isKept with isFirst | isKept
          · exact absurd (Prod.mk.inj isFirst).1 differs
          · exact gone other isKept
    | leaveOut own later =>
      rcases List.mem_cons.mp member with isFirst | isLater
      · cases isFirst
        exact .inr ⟨rfl, noOther later⟩
      · exact ih later laterDistinct isLater

/-- What a field holds is found in every layout, in another layout itself. -/
theorem relaid_fieldOf {fields kept extra others : List (String × Value)}
    (shrunk : RelaidFields fields kept) (distinct : (fields.map (·.1)).Nodup)
    (unknown : ∀ field ∈ extra, field.1 ∉ fields.map (·.1))
    (reordered : others.Perm (kept ++ extra)) {name : String} {value : Value}
    (member : (name, value) ∈ fields) : Relaid value (Value.fieldOf others name) := by
  have known : name ∈ fields.map (·.1) := List.mem_map.mpr ⟨_, member, rfl⟩
  have among (other : Value) : (name, other) ∈ others ↔ (name, other) ∈ kept := by
    rw [reordered.mem_iff, List.mem_append]
    exact or_iff_left fun isExtra => unknown _ isExtra known
  rcases shrunk.kept_or_gone distinct member with ⟨seen, same, isKept, only⟩ | ⟨rfl, gone⟩
  · rw [Value.fieldOf_eq_of_only ((among seen).mpr isKept) fun other isOther =>
      only other ((among other).mp isOther)]
    exact same
  · rw [Value.fieldOf_eq_null fun other isOther => gone other ((among other).mp isOther)]
    exact .same .null

/-- **The values of a record are read off every layout**, each in another layout itself. -/
theorem Relaid.fields? {names : List String} {values : List Value} {other : Value}
    (distinct : names.Nodup) (sameLength : names.length = values.length)
    (relaid : Relaid (.record (names.zip values)) other) :
    ∃ seen, other.fields? names = some seen ∧ RelaidItems values seen := by
  have sameNames : (names.zip values).map (·.1) = names :=
    List.map_fst_zip (Nat.le_of_eq sameLength)
  cases relaid with
  | same => exact ⟨values, Value.fields?_record_zip distinct sameLength, .same values⟩
  | @record _ kept extra others shrunk unknown reordered =>
    refine ⟨names.map (Value.fieldOf others), rfl, ?_⟩
    have each {name : String} {value : Value} (member : (name, value) ∈ names.zip values) :
        Relaid value (Value.fieldOf others name) :=
      relaid_fieldOf shrunk (by rwa [sameNames]) unknown reordered member
    clear shrunk unknown reordered sameNames distinct
    induction names generalizing values with
    | nil =>
      obtain rfl := List.eq_nil_of_length_eq_zero sameLength.symm
      exact .nil
    | cons name names ih =>
      cases values with
      | nil => cases sameLength
      | cons value values =>
        exact .cons (each List.mem_cons_self)
          (ih (Nat.succ.inj sameLength) fun member => each (List.mem_cons_of_mem _ member))

/-! ## Faithful codecs -/

namespace Codec

variable {α : Type}

/-- **A codec that loses nothing**, for the members whose numbers are in range. -/
structure Faithful (codec : Codec α) (inRange : α → Prop) : Prop where
  /-- What is written is read back in every layout. -/
  reads : ∀ {member : α} {value : Value}, inRange member → Relaid (codec.encode member) value →
    codec.decode? value = some member
  /-- Whatever is read is in range. -/
  bounded : ∀ {value : Value} {member : α}, codec.decode? value = some member → inRange member

namespace Faithful

variable {codec : Codec α} {inRange : α → Prop}

/-- What is written is read back. -/
theorem readsBack (faithful : codec.Faithful inRange) {member : α} (fits : inRange member) :
    codec.decode? (codec.encode member) = some member :=
  faithful.reads fits (.same _)

/-- **Whatever is read is read again** once it has been written. -/
theorem settles (faithful : codec.Faithful inRange) {value : Value} {member : α}
    (read : codec.decode? value = some member) :
    codec.decode? (codec.encode member) = some member :=
  faithful.readsBack (faithful.bounded read)

end Faithful

theorem faithful_boolean : boolean.Faithful fun _ => True where
  reads _ relaid := by rw [relaid.eq_boolean]; exact decode?_encode_boolean _
  bounded _ := trivial

theorem faithful_text : text.Faithful fun _ => True where
  reads _ relaid := by rw [relaid.eq_text]; exact decode?_encode_text _
  bounded _ := trivial

theorem faithful_natural (bits : Nat) : (natural bits).Faithful (· < 2 ^ bits) where
  reads {member value} fits relaid := by
    rw [relaid.eq_integer]
    exact decode?_encode_natural (by rwa [Nat.one_shiftLeft])
  bounded {value member} read := by
    cases value with
    | integer number =>
      cases number with
      | ofNat number =>
        simp only [natural, Nat.one_shiftLeft] at read
        split at read
        · next fits => exact Option.some.inj read ▸ fits
        · cases read
      | negSucc => cases read
    | _ => cases read

theorem faithful_offset : offset.Faithful (· < 2 ^ 64) := faithful_natural 64

theorem faithful_small : small.Faithful (· < 2 ^ 32) := faithful_natural 32

/-- A choice among members of different names loses nothing. -/
theorem faithful_named {members : List α} {name : α → String} (all : ∀ member, member ∈ members)
    (distinct : ∀ member other, name other = name member → other = member) :
    (named members name).Faithful fun _ => True where
  reads {member value} _ relaid := by
    rw [relaid.eq_text]
    exact decode?_encode_named (all member) fun other _ => distinct member other
  bounded _ := trivial

/-- A member or nothing, where no member is written like nothing. -/
theorem faithful_optional {codec : Codec α} {inRange : α → Prop}
    (faithful : codec.Faithful inRange) (present : ∀ member, codec.encode member ≠ .null) :
    codec.optional.Faithful fun member? => ∀ member ∈ member?, inRange member where
  reads {member? value} fits relaid := by
    cases member? with
    | none => rw [Relaid.eq_null relaid]; rfl
    | some member =>
      have relaid : Relaid (codec.encode member) value := relaid
      have read := faithful.reads (fits member rfl) relaid
      cases value with
      | null => exact absurd rfl (relaid.ne_null (present member))
      | _ => exact congrArg (Option.map some) read
  bounded {value member?} read := by
    rintro member rfl
    have found {value : Value} (read : (codec.decode? value).map some = some (some member)) :
        codec.decode? value = some member := by
      obtain ⟨other, found, same⟩ := Option.map_eq_some_iff.mp read
      exact Option.some.inj same ▸ found
    cases value with
    | null => cases read
    | _ => exact faithful.bounded (found read)

theorem faithful_list {codec : Codec α} {inRange : α → Prop}
    (faithful : codec.Faithful inRange) :
    codec.list.Faithful fun members => ∀ member ∈ members, inRange member where
  reads {members value} fits relaid := by
    obtain ⟨items, rfl, each⟩ :
        ∃ items, value = .list items ∧ RelaidItems (members.map codec.encode) items := by
      cases relaid with
      | same => exact ⟨_, rfl, .same _⟩
      | list each => exact ⟨_, rfl, each⟩
    have read : items.mapM codec.decode? = some members := by
      clear relaid
      induction members generalizing items with
      | nil =>
        cases each
        rfl
      | cons member members ih =>
        cases each with
        | @cons _ item _ items first later =>
          rw [List.forall_mem_cons] at fits
          rw [List.mapM_cons, faithful.reads fits.1 first, ih fits.2 items later]
          rfl
    exact read
  bounded {value members} read := by
    cases value with
    | list items =>
      have read : items.mapM codec.decode? = some members := read
      induction items generalizing members with
      | nil =>
        cases read
        exact fun _ member => absurd member List.not_mem_nil
      | cons item items ih =>
        rw [List.mapM_cons] at read
        obtain ⟨first, isFirst, read⟩ := Option.bind_eq_some_iff.mp read
        obtain ⟨others, areOthers, read⟩ := Option.bind_eq_some_iff.mp read
        obtain rfl := Option.some.inj read
        exact List.forall_mem_cons.mpr ⟨faithful.bounded isFirst, ih areOthers areOthers⟩
    | _ => cases read

/-- **A record loses nothing when its fields, in whatever layout, are read back**, and what is read
of its fields is in range. -/
theorem faithful_record {names : List String} {encode : α → List Value}
    {decode? : List Value → Option α} {inRange : α → Prop} (distinct : names.Nodup)
    (sameLength : ∀ member, names.length = (encode member).length)
    (reads : ∀ {member seen}, inRange member → RelaidItems (encode member) seen →
      decode? seen = some member)
    (bounded : ∀ {seen member}, decode? seen = some member → inRange member) :
    (record names encode decode?).Faithful inRange where
  reads {member value} fits relaid := by
    obtain ⟨seen, fields, each⟩ := Relaid.fields? distinct (sameLength member) relaid
    exact (congrArg (Option.bind · decode?) fields).trans (reads fits each)
  bounded {value member} read := by
    obtain ⟨seen, _, read⟩ := Option.bind_eq_some_iff.mp read
    exact bounded read

end Codec

end DaxScript.Wire
