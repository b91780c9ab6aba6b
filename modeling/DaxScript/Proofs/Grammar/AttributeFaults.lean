import DaxScript.Proofs.Grammar.Attributes

/-!
# The first attribute that is refused

If attributes are not acceptable, one of them is the first that cannot be read with those in front
of it.  Its key is unknown, or its value does not fit the key, or the key was there before, and the
formatting is refused for that (`foldWhile_refused`).  Nothing behind this attribute has been looked
at then.
-/

set_option autoImplicit false

namespace DaxScript

open Production

/-- A reading whose first step succeeds and whose second step is refused. -/
theorem Yields.thenRefused {α β : Type} {count between : Nat} {tokens others left : List Token}
    {first : Reading β between others} {further : Parsed β between others → Reading α count tokens}
    {middle : β} {refusal : Refusal} (earlier : Yields first middle left)
    (later : ∀ fits, further ⟨middle, left, fits⟩ = .error refusal) :
    (first >>= further) = .error refusal := by
  obtain ⟨parsed, rfl, rfl, rfl⟩ := earlier
  exact later parsed.fits

section FoldWhile

variable {β : Type} {continues : TokenKind → Bool} {step : β → Production β 1} {state middle : β}
  {tokens left : List Token} {refusal : Refusal} (goesOn : continues (nextKind tokens) = true)
include goesOn

/-- A repetition is refused with its first step. -/
theorem foldWhile_of_refused (refused : step state tokens = .error refusal) :
    foldWhile continues step state tokens = .error refusal := by
  rw [foldWhile, if_pos goesOn, refused]
  rfl

/-- A repetition is refused where it goes on behind its first step. -/
theorem foldWhile_of_yields (earlier : Yields (step state tokens) middle left)
    (refused : foldWhile continues step middle left = .error refusal) :
    foldWhile continues step state tokens = .error refusal := by
  rw [foldWhile, if_pos goesOn]
  refine earlier.thenRefused fun fits => ?_
  simp only [refused]
  rfl

end FoldWhile

namespace WrittenAttribute

/-- What is wrong with an attribute behind others, and where this is told.  That it is there twice
is told only if nothing else is wrong with it. -/
inductive Fault (earlier : List WrittenAttribute) (written : WrittenAttribute) :
    Issue → Position → Prop where
  | unknown (unknown : ∀ name, ¬written.Names name) :
      Fault earlier written (.unknownAttribute written.word) written.key.position
  | illTyped {name : AttributeName} (named : written.Names name)
      (illTyped : ∀ assigned : Attribute, assigned.name = name → ¬assigned.IsValued written.value) :
      Fault earlier written name.valueIssue written.valueToken.position
  | duplicate {assigned : Attribute} (meant : written.Means assigned)
      (twice : ∃ other ∈ earlier, sameIgnoringCase other.word written.word = true) :
      Fault earlier written (.duplicateAttribute written.word) written.key.position

variable {earlier : List WrittenAttribute} {written : WrittenAttribute}

theorem texts_append (first second : List WrittenAttribute) :
    texts (first ++ second) = texts first ++ texts second :=
  List.map_append

/-- Something is wrong with an attribute that cannot be read with those in front of it. -/
theorem exists_fault (acceptable : AttributeText.Acceptable (texts earlier))
    (wrong : ¬AttributeText.Acceptable (texts (earlier ++ [written]))) :
    ∃ issue position, Fault earlier written issue position := by
  by_cases known : ∃ name, written.Names name
  · obtain ⟨name, named⟩ := known
    by_cases typed : ∃ assigned : Attribute, assigned.name = name ∧ assigned.IsValued written.value
    · obtain ⟨assigned, rfl, valued⟩ := typed
      have meant : written.Means assigned := ⟨named, valued⟩
      refine ⟨_, _, .duplicate meant ?_⟩
      by_contra once
      refine wrong ?_
      rw [texts_append]
      refine AttributeText.Acceptable.concat_iff.mpr ⟨acceptable, ⟨assigned, meant⟩, ?_⟩
      intro other member
      obtain ⟨other, isEarlier, rfl⟩ := List.mem_map.mp member
      exact Bool.eq_false_iff.mpr fun same => once ⟨other, isEarlier, same⟩
    · exact ⟨_, _, .illTyped named fun assigned same valued => typed ⟨assigned, same, valued⟩⟩
  · exact ⟨_, _, .unknown fun name named => known ⟨name, named⟩⟩

section Refused

variable {property : CalculationProperty} {format : Format}
  (lists : property.Lists format (texts earlier))
  (acceptable : AttributeText.Acceptable (texts earlier))
include lists acceptable

/-- **An attribute with which something is wrong is refused**, and has been read by then. -/
theorem formatAttribute_of_fault {issue : Issue} {position : Position}
    (fault : Fault earlier written issue position) (rest : List Token) :
    Production.formatAttribute property (written.tokens ++ rest) =
      .error ⟨issue, some position, rest.length, rest.length + 1⟩ := by
  have sign : Production.symbol .equal (written.equals :: written.valueToken :: rest) =
      .ok (.single written.equals written.equals (written.valueToken :: rest)) := by
    simp [Production.symbol, written.sign]
  have start : Production.formatAttribute property (written.tokens ++ rest) =
      formatAttributeOf property written.word written.key
        (written.equals :: written.valueToken :: rest) := by
    simp only [Production.formatAttribute, tokens, List.cons_append, List.nil_append, written.keyed]
  rw [start, formatAttributeOf, sign]
  simp only [bind, Except.bind, Parsed.rest_single, nextKind, written.valued]
  cases fault with
  | unknown unknown =>
    have none : AttributeName.ofWord? written.word = none :=
      Option.eq_none_iff_forall_ne_some.mpr fun name found =>
        unknown name (AttributeName.ofWord?_eq_some_iff.mp found)
    simp only [none]
    rfl
  | @illTyped name named illTyped =>
    have known := AttributeName.ofWord?_eq_some_iff.mpr named
    have none : name.withValue? written.value = none :=
      Option.eq_none_iff_forall_ne_some.mpr fun assigned found =>
        have fits := AttributeName.withValue?_eq_some_iff.mp found
        illTyped assigned fits.1 fits.2
    simp only [known, none]
    rfl
  | @duplicate assigned meant twice =>
    have known := AttributeName.ofWord?_eq_some_iff.mpr meant.names
    have typed := AttributeName.withValue?_eq_some_iff.mpr ⟨rfl, meant.valued⟩
    have present : property.has assigned.name = true := by
      obtain ⟨other, member, same⟩ := twice
      exact (lists.has_iff acceptable).mpr
        ⟨other.toAttributeText, List.mem_map_of_mem member, meant.names.same_iff.mpr same⟩
    simp only [known, typed, present, if_true]
    rfl

/-- **Attributes that are not acceptable are refused for the first one with which something is
wrong.** -/
theorem foldWhile_refused {attributes : List WrittenAttribute}
    (wrong : ¬AttributeText.Acceptable (texts (earlier ++ attributes))) (rest : List Token) :
    ∃ front written later issue position, attributes = front ++ written :: later ∧
      AttributeText.Acceptable (texts (earlier ++ front)) ∧
      Fault (earlier ++ front) written issue position ∧
      foldWhile isIdentifier Production.formatAttribute property (allTokens attributes ++ rest) =
        .error ⟨issue, some position, (allTokens later ++ rest).length,
          (allTokens later ++ rest).length + 1⟩ := by
  induction attributes generalizing property earlier with
  | nil =>
    rw [List.append_nil] at wrong
    exact absurd acceptable wrong
  | cons written attributes ih =>
    have cut : allTokens (written :: attributes) ++ rest =
        written.tokens ++ (allTokens attributes ++ rest) := by
      simp [allTokens]
    have goesOn : isIdentifier (nextKind (written.tokens ++ (allTokens attributes ++ rest))) =
        true := by
      simp [tokens, nextKind, isIdentifier, written.keyed]
    rw [cut]
    by_cases grown : AttributeText.Acceptable (texts (earlier ++ [written]))
    · have single : texts (earlier ++ [written]) = texts earlier ++ [written.toAttributeText] :=
        texts_append _ _
      obtain ⟨_, ⟨assigned, meant⟩, differ⟩ :=
        AttributeText.Acceptable.concat_iff.mp (single ▸ grown)
      have isNew := (lists.has_eq_false_iff acceptable meant.names).mpr differ
      have lists' := lists.set meant isNew
      rw [← single] at lists'
      rw [List.append_cons] at wrong
      obtain ⟨front, first, later, issue, position, rfl, before, fault, refused⟩ :=
        ih lists' grown wrong
      refine ⟨written :: front, first, later, issue, position, rfl, ?_, ?_, ?_⟩
      · rwa [List.append_cons]
      · rwa [List.append_cons]
      · exact foldWhile_of_yields goesOn ((describes_formatAttribute property).complete
          (written.formatAttribute meant isNew _)) refused
    · obtain ⟨issue, position, fault⟩ := exists_fault acceptable grown
      refine ⟨[], written, attributes, issue, position, rfl, ?_, ?_, ?_⟩
      · rwa [List.append_nil]
      · rwa [List.append_nil]
      · exact foldWhile_of_refused goesOn (formatAttribute_of_fault lists acceptable fault _)

end Refused

end WrittenAttribute

end DaxScript
