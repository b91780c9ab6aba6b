import DaxScript.Proofs.Grammar.StatementDescription
import DaxScript.Proofs.Number.Rounding

/-!
# The attributes of a formatting

An attribute is written as a key, an equals sign and a value.  The attributes of a formatting are
acceptable if each has a known key and a value that fits it, and no key is there twice
(`AttributeText.Acceptable`).  All this does not depend on their order, and neither does the
property that they make (`CalculationProperty.Lists`).

Attributes are read if they are acceptable, and then the property that is read lists them; no others
are read (`exists_folded_of_acceptable`, `exists_attributes_of_folded`).  The invariant of the loop
is that the property lists the attributes that have been read.
-/

set_option autoImplicit false

namespace DaxScript

open Production

/-! ## Single attributes -/

namespace Attribute

/-- The name of an attribute. -/
def name : Attribute → AttributeName
  | accuracy _ => .accuracy
  | thousandSeparator _ => .thousandSeparator
  | formatString _ => .formatString

/-- What may be written for the value of an attribute. -/
inductive IsValued : Attribute → TokenKind → Prop where
  | accuracy {value : Binary64} {places : Nat} (whole : value.IsWhole places)
      (limit : places ≤ 4294967295) : IsValued (.accuracy places) (.number value)
  | shown : IsValued (.thousandSeparator true) (.keyword .trueValue)
  | hidden : IsValued (.thousandSeparator false) (.keyword .falseValue)
  | quotedName (pattern : String) : IsValued (.formatString pattern) (.quotedName pattern)
  | text (pattern : String) : IsValued (.formatString pattern) (.text pattern)

/-- A value says which attribute of a name it is for. -/
theorem IsValued.unique {first second : Attribute} {value : TokenKind}
    (isFirst : first.IsValued value) (isSecond : second.IsValued value) : first = second := by
  cases isFirst with
  | accuracy whole =>
    cases isSecond with
    | accuracy whole' => rw [whole.unique whole']
  | shown => cases isSecond; rfl
  | hidden => cases isSecond; rfl
  | quotedName => cases isSecond; rfl
  | text => cases isSecond; rfl

end Attribute

theorem AttributeName.withValue?_eq_some_iff {name : AttributeName} {value : TokenKind}
    {assigned : Attribute} :
    name.withValue? value = some assigned ↔ assigned.name = name ∧ assigned.IsValued value := by
  constructor
  · intro typed
    unfold withValue? at typed
    split at typed
    · obtain ⟨places, whole, limited⟩ := Option.bind_eq_some_iff.mp typed
      split at limited
      · next limit =>
        cases limited
        exact ⟨rfl, .accuracy (Binary64.toNat?_eq_some_iff.mp whole) limit⟩
      · cases limited
    · cases typed
      exact ⟨rfl, .shown⟩
    · cases typed
      exact ⟨rfl, .hidden⟩
    · cases typed
      exact ⟨rfl, .quotedName _⟩
    · cases typed
      exact ⟨rfl, .text _⟩
    · cases typed
  · rintro ⟨rfl, valued⟩
    cases valued with
    | accuracy whole limit =>
      simp only [withValue?, Attribute.name, Binary64.toNat?_eq_some_iff.mpr whole,
        Option.bind_some]
      exact if_pos limit
    | _ => rfl

/-- The key that stands for an attribute. -/
def AttributeName.key : AttributeName → String
  | accuracy => "Accuracy"
  | thousandSeparator => "ThousandSeparator"
  | formatString => "Format"

theorem AttributeName.name_eq_key (name : AttributeName) : name.name = name.key := by
  cases name <;> rfl

/-- **A word names an attribute if it is the key for it in some letter case.** -/
theorem AttributeName.ofWord?_eq_some_iff {word : String} {name : AttributeName} :
    ofWord? word = some name ↔ sameIgnoringCase name.key word = true := by
  rw [← name_eq_key]
  constructor
  · exact List.find?_some (p := fun known : AttributeName => sameIgnoringCase known.name word)
  · intro named
    cases found : ofWord? word with
    | none =>
      have unknown := List.find?_eq_none.mp found name (by cases name <;> decide)
      exact absurd named unknown
    | some other =>
      -- No two names are the same in some letter case.
      have same := List.find?_some (p := fun known : AttributeName =>
        sameIgnoringCase known.name word) found
      have alike := (sameIgnoringCase_iff.mp same).trans (sameIgnoringCase_iff.mp named).symm
      revert alike
      cases other <;> cases name <;> decide

/-! ## Written attributes -/

/-- What is written for an attribute: the word in front of the equals sign and the value behind
it. -/
structure AttributeText where
  word : String
  value : TokenKind
  deriving DecidableEq

namespace AttributeText

/-- The word names an attribute, in any letter case. -/
def Names (text : AttributeText) (name : AttributeName) : Prop :=
  sameIgnoringCase name.key text.word = true

instance (text : AttributeText) (name : AttributeName) : Decidable (text.Names name) :=
  inferInstanceAs (Decidable (_ = true))

/-- The word names the attribute, and the value is one for it. -/
structure Means (text : AttributeText) (assigned : Attribute) : Prop where
  names : text.Names assigned.name
  valued : assigned.IsValued text.value

variable {text other : AttributeText}

theorem Names.unique {first second : AttributeName} (isFirst : text.Names first)
    (isSecond : text.Names second) : first = second :=
  Option.some.inj ((AttributeName.ofWord?_eq_some_iff.mpr isFirst).symm.trans
    (AttributeName.ofWord?_eq_some_iff.mpr isSecond))

/-- Two words name the same attribute if they are the same in some letter case. -/
theorem Names.same_iff {name : AttributeName} (named : text.Names name) :
    other.Names name ↔ sameIgnoringCase other.word text.word = true := by
  rw [Names, sameIgnoringCase_iff] at named
  rw [Names, sameIgnoringCase_iff, sameIgnoringCase_iff, named, eq_comm]

/-- **The attributes can be read together**: each is known and has a value of its type, and no key
is there twice. -/
structure Acceptable (texts : List AttributeText) : Prop where
  known : ∀ text ∈ texts, ∃ name, text.Names name
  typed : ∀ text ∈ texts, ∀ name, text.Names name →
    ∃ assigned : Attribute, assigned.name = name ∧ assigned.IsValued text.value
  once : texts.Pairwise fun first second => sameIgnoringCase first.word second.word = false

namespace Acceptable

variable {texts others : List AttributeText}

theorem nil : Acceptable [] :=
  ⟨fun _ none => (List.not_mem_nil none).elim, fun _ none => (List.not_mem_nil none).elim, .nil⟩

/-- The order does not matter. -/
theorem perm (acceptable : Acceptable texts) (permuted : others.Perm texts) :
    Acceptable others where
  known text member := acceptable.known text (permuted.mem_iff.mp member)
  typed text member := acceptable.typed text (permuted.mem_iff.mp member)
  once := by
    refine (permuted.pairwise_iff fun {first second} differ => ?_).mpr acceptable.once
    rw [Bool.eq_false_iff, ne_eq, sameIgnoringCase_iff] at differ ⊢
    exact fun same => differ same.symm

/-- The first of the attributes can be read without the others. -/
theorem of_append (acceptable : Acceptable (texts ++ others)) : Acceptable texts :=
  ⟨(List.forall_mem_append.mp acceptable.known).1, (List.forall_mem_append.mp acceptable.typed).1,
    (List.pairwise_append.mp acceptable.once).1⟩

/-- The last attribute can be read with the others if it is a new one. -/
theorem concat_iff : Acceptable (texts ++ [text]) ↔ Acceptable texts ∧
    (∃ assigned, text.Means assigned) ∧
      ∀ earlier ∈ texts, sameIgnoringCase earlier.word text.word = false := by
  constructor
  · rintro ⟨known, typed, once⟩
    rw [List.forall_mem_append] at known typed
    obtain ⟨front, _, apart⟩ := List.pairwise_append.mp once
    obtain ⟨name, named⟩ := known.2 text (.head _)
    obtain ⟨assigned, rfl, valued⟩ := typed.2 text (.head _) name named
    exact ⟨⟨known.1, typed.1, front⟩, ⟨assigned, named, valued⟩,
      fun earlier member => apart earlier member text (.head _)⟩
  · rintro ⟨acceptable, ⟨assigned, meant⟩, isNew⟩
    refine ⟨List.forall_mem_append.mpr ⟨acceptable.known, ?_⟩,
      List.forall_mem_append.mpr ⟨acceptable.typed, ?_⟩, List.pairwise_append.mpr
        ⟨acceptable.once, List.pairwise_singleton _ _, fun earlier member last isLast => ?_⟩⟩
    · rintro _ isLast
      obtain rfl := List.mem_singleton.mp isLast
      exact ⟨_, meant.names⟩
    · rintro _ isLast name named
      obtain rfl := List.mem_singleton.mp isLast
      exact ⟨assigned, meant.names.unique named, meant.valued⟩
    · obtain rfl := List.mem_singleton.mp isLast
      exact isNew earlier member

end Acceptable

end AttributeText

/-! ## The property that attributes make -/

namespace CalculationProperty

/-- The property gives an attribute its value. -/
def Gives (property : CalculationProperty) : Attribute → Prop
  | .accuracy places => property.accuracy = some places
  | .thousandSeparator shown => property.thousandSeparator = some shown
  | .formatString pattern => property.formatString = some pattern

theorem has_iff {property : CalculationProperty} {name : AttributeName} :
    property.has name = true ↔ ∃ assigned : Attribute, assigned.name = name ∧
      property.Gives assigned := by
  constructor
  · intro present
    cases name with
    | accuracy =>
      obtain ⟨places, given⟩ := Option.isSome_iff_exists.mp present
      exact ⟨.accuracy places, rfl, given⟩
    | thousandSeparator =>
      obtain ⟨shown, given⟩ := Option.isSome_iff_exists.mp present
      exact ⟨.thousandSeparator shown, rfl, given⟩
    | formatString =>
      obtain ⟨pattern, given⟩ := Option.isSome_iff_exists.mp present
      exact ⟨.formatString pattern, rfl, given⟩
  · rintro ⟨assigned, rfl, given⟩
    cases assigned <;> exact Option.isSome_iff_exists.mpr ⟨_, given⟩

/-- An attribute that is set is given, and so are those that were given under other names. -/
theorem gives_set_iff {property : CalculationProperty} {assigned other : Attribute} :
    (property.set assigned).Gives other ↔
      assigned = other ∨ (assigned.name ≠ other.name ∧ property.Gives other) := by
  cases assigned <;> cases other <;> simp [set, Gives, Attribute.name]

/-- **A property with a format and exactly the attributes that are written.** -/
structure Lists (property : CalculationProperty) (format : Format) (texts : List AttributeText) :
    Prop where
  format : property.format = format
  calculationType : property.calculationType = "Member"
  gives : ∀ assigned, property.Gives assigned ↔ ∃ text ∈ texts, text.Means assigned

namespace Lists

variable {property other : CalculationProperty} {format : Format}
  {texts others : List AttributeText}

theorem ofFormat (format : Format) : (CalculationProperty.ofFormat format).Lists format [] where
  format := rfl
  calculationType := rfl
  gives assigned := by cases assigned <;> simp [CalculationProperty.ofFormat, Gives]

/-- **Only one property lists the attributes**, in whatever order they are written. -/
theorem unique (lists : property.Lists format texts) (also : other.Lists format others)
    (permuted : others.Perm texts) : property = other := by
  have same (assigned : Attribute) : property.Gives assigned ↔ other.Gives assigned := by
    rw [lists.gives, also.gives]
    simp only [permuted.mem_iff]
  obtain ⟨format₁, type₁, accuracy₁, separator₁, pattern₁⟩ := property
  obtain ⟨format₂, type₂, accuracy₂, separator₂, pattern₂⟩ := other
  obtain rfl : format₁ = format₂ := lists.format.trans also.format.symm
  obtain rfl : type₁ = type₂ := lists.calculationType.trans also.calculationType.symm
  obtain rfl : accuracy₁ = accuracy₂ := Option.ext fun places => same (.accuracy places)
  obtain rfl : separator₁ = separator₂ := Option.ext fun shown => same (.thousandSeparator shown)
  obtain rfl : pattern₁ = pattern₂ := Option.ext fun pattern => same (.formatString pattern)
  rfl

/-- A name has a value if one of the words names it. -/
theorem has_iff (lists : property.Lists format texts) (acceptable : AttributeText.Acceptable texts)
    {name : AttributeName} : property.has name = true ↔ ∃ text ∈ texts, text.Names name := by
  rw [CalculationProperty.has_iff]
  constructor
  · rintro ⟨assigned, rfl, given⟩
    obtain ⟨text, member, meant⟩ := (lists.gives assigned).mp given
    exact ⟨text, member, meant.names⟩
  · rintro ⟨text, member, named⟩
    obtain ⟨assigned, rfl, valued⟩ := acceptable.typed text member name named
    exact ⟨assigned, rfl, (lists.gives assigned).mpr ⟨text, member, named, valued⟩⟩

/-- An attribute under a new name is listed behind the others. -/
theorem set (lists : property.Lists format texts) {text : AttributeText} {assigned : Attribute}
    (meant : text.Means assigned) (isNew : property.has assigned.name = false) :
    (property.set assigned).Lists format (texts ++ [text]) where
  format := by cases assigned <;> exact lists.format
  calculationType := by cases assigned <;> exact lists.calculationType
  gives other := by
    rw [gives_set_iff, lists.gives]
    constructor
    · rintro (rfl | ⟨_, earlier, member, said⟩)
      · exact ⟨text, by simp, meant⟩
      · exact ⟨earlier, by simp [member], said⟩
    · rintro ⟨earlier, member, said⟩
      rcases List.mem_append.mp member with isEarlier | isLast
      · refine .inr ⟨fun same => ?_, earlier, isEarlier, said⟩
        have given := (lists.gives other).mpr ⟨earlier, isEarlier, said⟩
        rw [same, CalculationProperty.has_iff.mpr ⟨other, rfl, given⟩] at isNew
        cases isNew
      · obtain rfl := List.mem_singleton.mp isLast
        exact .inl (meant.valued.unique said.valued)

end Lists

end CalculationProperty
/-! ## Attributes as tokens -/

/-- Whether a token may stand for the value of an attribute, be it one for the key or not: a number,
a text, a name or a truth value. -/
def TokenKind.isPlainValue : TokenKind → Bool
  | identifier _ | quotedName _ | bracketName _ | text _ | number _ => true
  | keyword word => word == .trueValue || word == .falseValue
  | _ => false

/-- An attribute with the tokens that it is written with. -/
structure WrittenAttribute extends AttributeText where
  key : Token
  equals : Token
  valueToken : Token
  keyed : key.kind = .identifier word
  sign : equals.kind = .symbol .equal
  valued : valueToken.kind = value
  plain : value.isPlainValue = true

namespace WrittenAttribute

/-- The tokens of an attribute. -/
def tokens (written : WrittenAttribute) : List Token :=
  [written.key, written.equals, written.valueToken]

/-- The tokens of several attributes. -/
def allTokens (attributes : List WrittenAttribute) : List Token :=
  attributes.flatMap tokens

/-- What is written for several attributes. -/
def texts (attributes : List WrittenAttribute) : List AttributeText :=
  attributes.map toAttributeText

/-- An attribute is read where its name is a new one. -/
theorem formatAttribute (written : WrittenAttribute) {property : CalculationProperty}
    {assigned : Attribute} (meant : written.Means assigned)
    (isNew : property.has assigned.name = false) (next : TokenKind) :
    Rule.FormatAttribute property written.tokens (property.set assigned) next := by
  refine .intro written.keyed written.sign (AttributeName.ofWord?_eq_some_iff.mpr meant.names) ?_
    isNew
  rw [written.valued]
  exact AttributeName.withValue?_eq_some_iff.mpr ⟨rfl, meant.valued⟩

/-- An attribute is read for what is written, and its name is a new one. -/
theorem exists_of_formatAttribute {property last : CalculationProperty} {used : List Token}
    {next : TokenKind} (reading : Rule.FormatAttribute property used last next) :
    ∃ (written : WrittenAttribute) (assigned : Attribute), used = written.tokens ∧
      written.Means assigned ∧ property.has assigned.name = false ∧
        last = property.set assigned := by
  cases reading with
  | @intro key equals value word name assigned _ keyed sign known typed isNew =>
    obtain ⟨rfl, valued⟩ := AttributeName.withValue?_eq_some_iff.mp typed
    have plain : value.kind.isPlainValue = true := by
      revert valued
      generalize value.kind = kind
      intro valued
      cases valued <;> rfl
    exact ⟨⟨⟨word, value.kind⟩, key, equals, value, keyed, sign, rfl, plain⟩, assigned, rfl,
      ⟨AttributeName.ofWord?_eq_some_iff.mp known, valued⟩, isNew, rfl⟩

end WrittenAttribute

section Folded

variable {property : CalculationProperty} {format : Format} {earlier : List AttributeText}
  {next : TokenKind}

/-- A name is a new one if no key names it. -/
theorem CalculationProperty.Lists.has_eq_false_iff (lists : property.Lists format earlier)
    (acceptable : AttributeText.Acceptable earlier) {text : AttributeText} {name : AttributeName}
    (named : text.Names name) : property.has name = false ↔
      ∀ other ∈ earlier, sameIgnoringCase other.word text.word = false := by
  rw [Bool.eq_false_iff, ne_eq, lists.has_iff acceptable]
  simp only [named.same_iff, not_exists, not_and, Bool.not_eq_true]

/-- **Only acceptable attributes are read**, and the property lists them behind those that were
there before. -/
theorem exists_attributes_of_folded {used : List Token} {last : CalculationProperty}
    (reading : Rule.Folded isIdentifier Rule.FormatAttribute property used last next)
    (lists : property.Lists format earlier) (acceptable : AttributeText.Acceptable earlier) :
    ∃ attributes : List WrittenAttribute, used = WrittenAttribute.allTokens attributes ∧
      AttributeText.Acceptable (earlier ++ WrittenAttribute.texts attributes) ∧
        last.Lists format (earlier ++ WrittenAttribute.texts attributes) := by
  induction reading generalizing earlier with
  | done =>
    rw [← List.append_nil earlier] at lists acceptable
    exact ⟨[], rfl, acceptable, lists⟩
  | more _ reading _ ih =>
    obtain ⟨written, assigned, rfl, meant, isNew, rfl⟩ :=
      WrittenAttribute.exists_of_formatAttribute reading
    have grown := AttributeText.Acceptable.concat_iff.mpr ⟨acceptable, ⟨assigned, meant⟩,
      (lists.has_eq_false_iff acceptable meant.names).mp isNew⟩
    obtain ⟨attributes, rfl, acceptable, lists⟩ := ih (lists.set meant isNew) grown
    rw [List.append_assoc] at acceptable lists
    exact ⟨written :: attributes, rfl, acceptable, lists⟩

/-- **Acceptable attributes are read.** -/
theorem exists_folded_of_acceptable (attributes : List WrittenAttribute)
    (lists : property.Lists format earlier)
    (acceptable : AttributeText.Acceptable (earlier ++ WrittenAttribute.texts attributes))
    (stops : isIdentifier next = false) :
    ∃ last : CalculationProperty, Rule.Folded isIdentifier Rule.FormatAttribute property
        (WrittenAttribute.allTokens attributes) last next ∧
      last.Lists format (earlier ++ WrittenAttribute.texts attributes) := by
  induction attributes generalizing property earlier with
  | nil =>
    rw [WrittenAttribute.texts, List.map_nil, List.append_nil]
    exact ⟨property, .done stops, lists⟩
  | cons written attributes ih =>
    have split : earlier ++ WrittenAttribute.texts (written :: attributes) =
        (earlier ++ [written.toAttributeText]) ++ WrittenAttribute.texts attributes := by
      simp [WrittenAttribute.texts]
    rw [split] at acceptable ⊢
    obtain ⟨before, ⟨assigned, meant⟩, differ⟩ :=
      AttributeText.Acceptable.concat_iff.mp acceptable.of_append
    have isNew := (lists.has_eq_false_iff before meant.names).mpr differ
    obtain ⟨last, reading, lists⟩ := ih (lists.set meant isNew) acceptable
    refine ⟨last, .more ?_ (written.formatAttribute meant isNew _) reading, lists⟩
    simp [WrittenAttribute.tokens, kindAfter, isIdentifier, written.keyed]

end Folded

end DaxScript
