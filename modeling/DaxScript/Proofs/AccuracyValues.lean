import DaxScript.Proofs.Grammar.Attributes
import DaxScript.Proofs.Number.Rounding
import DaxScript.Proofs.QuotedTokens
import DaxScript.Proofs.Script.ReachedMeasures

/-!
# Which accuracies are recorded

The accuracy of a measure is written as a numeral, and a numeral is read as the nearest binary64
number before anything else is asked of it.  So an accuracy is accepted if a whole number of 32 bits
is nearest to it, and that number is recorded (`accuracies_nearest`).

It is what was written whenever a whole number was written, and whenever at most six decimals were.
A longer fraction may lie so near to a whole number that it is taken for it
(`accuracy_of_longFraction`).
-/

set_option autoImplicit false

namespace DaxScript

open Production

/-! ## Numbers and formattings of a source -/

/-- The value of a number of a source is that of its numeral. -/
theorem value?_of_mem_tokens {source : String} {token : Token}
    (member : token ∈ (Input.ofSource source).tokens) {value : Binary64}
    (isNumber : token.kind = .number value) :
    Numeral.value? token.spelling.toList = some value := by
  rcases isWritten_or_unclosed member with written | ⟨enclosure, _, isEnclosed, _⟩
  · rw [isNumber] at written
    generalize token.spelling.toList = spelling at written ⊢
    generalize same : TokenKind.number value = kind at written
    cases written with
    | number known =>
      cases same
      exact known
    | @enclosed enclosure => cases enclosure <;> cases same
    | _ => cases same
  · rw [isNumber] at isEnclosed
    cases enclosure <;> cases isEnclosed

namespace Rule

/-- The rule for a measure clause says where the measure starts. -/
theorem MeasureClause.atStart {start : Nat} {own : List Token} {clause : DaxScript.MeasureClause}
    {next : TokenKind} (reading : MeasureClause start own clause next) :
    MeasureClause clause.start own clause next := by
  cases reading with
  | intro tableNamed measureNamed sign reading formatted =>
    exact .intro tableNamed measureNamed sign reading formatted

/-- A measure clause with a property ends with a formatting. -/
theorem MeasureClause.exists_formatting {start : Nat} {own : List Token}
    {clause : DaxScript.MeasureClause} {next : TokenKind}
    (reading : MeasureClause start own clause next) {property : CalculationProperty}
    (formatted : clause.property = some property) :
    ∃ front used, own = front ++ used ∧ Formatting used property next := by
  cases reading with
  | @intro table name equals used later _ _ _ _ _ _ _ maybe =>
    cases formatted
    cases maybe with
    | present reading => exact ⟨table :: name :: equals :: used, later, rfl, reading⟩

/-- The measures of definitions are read by the rule for measure clauses. -/
theorem exists_measureClause_of_definitions {used : List Token}
    {definitions : List DaxScript.Definition} {next : TokenKind}
    (items : Repeated startsDefinition Definition used definitions next)
    {clause : DaxScript.MeasureClause}
    (member : clause ∈ definitions.filterMap DaxScript.Definition.measure?) :
    ∃ own last, own <:+: used ∧ MeasureClause clause.start own clause last := by
  induction items with
  | done => cases member
  | @more used later definition definitions next _ reading _ ih =>
    have inLater (isLater : clause ∈ definitions.filterMap DaxScript.Definition.measure?) :
        ∃ own last, own <:+: used ++ later ∧ MeasureClause clause.start own clause last := by
      obtain ⟨own, last, inside, reading⟩ := ih isLater
      exact ⟨own, last, inside.trans (List.suffix_append used later).isInfix, reading⟩
    cases reading with
    | binding => exact inLater member
    | @measure word own _ _ _ reading =>
      rcases List.mem_cons.mp member with rfl | isLater
      · exact ⟨own, _, ⟨[word], later, by simp⟩, reading.atStart⟩
      · exact inLater isLater

/-- **The measures of a statement are read by the rule for measure clauses.** -/
theorem Statement.exists_measureClause {used : List Token} {statement : DaxScript.Statement}
    {next : TokenKind} (reading : Statement used statement next)
    {clause : DaxScript.MeasureClause} (member : clause ∈ statement.measures) :
    ∃ own last, own <:+: used ∧ MeasureClause clause.start own clause last := by
  cases reading with
  | @createMeasure create word own _ _ _ _ reading =>
    obtain rfl := List.mem_singleton.mp member
    exact ⟨own, next, ⟨[create, word], [], by simp⟩, reading.atStart⟩
  | @define word used later _ _ _ _ items =>
    obtain ⟨own, last, inside, reading⟩ := exists_measureClause_of_definitions items member
    exact ⟨own, last, inside.trans ⟨[word], later, by simp⟩, reading⟩
  | evaluate => cases member
  | expression => cases member

end Rule

/-- Reading comes to a measure where its clause stands. -/
theorem Turn.Reaches.exists_measureClause {source : List Char} {finish : Position}
    {clause : MeasureClause} {tokens : List Token}
    (reaches : Turn.Reaches source finish clause tokens) :
    ∃ own last, own <:+: tokens ∧ Rule.MeasureClause clause.start own clause last := by
  induction reaches with
  | here cut reading member =>
    obtain ⟨own, last, inside, reading⟩ := reading.exists_measureClause member
    rw [cut]
    exact ⟨own, last, inside.trans (List.prefix_append _ _).isInfix, reading⟩
  | @later first rest _ _ ih =>
    obtain ⟨own, last, inside, reading⟩ := ih
    exact ⟨own, last, inside.trans (course source finish first rest).rest_suffix.isInfix, reading⟩

/-- **Every measure that is recorded is read by the rule for measure clauses.** -/
theorem exists_measureClause_of_mem_measures {source : String} {options : ScriptOptions}
    {measure : Measure} (member : measure ∈ (readScript source options).measures) :
    ∃ clause own last, own <:+: (Input.ofSource source).tokens ∧
      Rule.MeasureClause clause.start own clause last ∧
        measure = .ofClause source.toList clause := by
  rw [measures_eq_counted] at member
  obtain ⟨⟨words, clause⟩, isCounted, rfl⟩ := List.mem_map.mp member
  have reaches := StatementReport.reaches_of_counted
    (Between.ofSource source options.maxErrors) isCounted
  obtain ⟨own, last, inside, reading⟩ := reaches.exists_measureClause
  exact ⟨clause, own, last, inside, reading, rfl⟩

/-! ## Formattings with their attributes -/

/-- The tokens of a measure of a source, the last of which are the attributes of its formatting. -/
structure Measure.StandsWith (source : String) (measure : Measure) (property : CalculationProperty)
    (attributes : List WrittenAttribute) : Prop where
  stands : ∃ clause front first second named last,
    let formatting := first :: second :: named :: WrittenAttribute.allTokens attributes
    (front ++ formatting) <:+: (Input.ofSource source).tokens ∧
      Rule.MeasureClause clause.start (front ++ formatting) clause last ∧
      Rule.Formatting formatting property last ∧ measure = .ofClause source.toList clause
  acceptable : AttributeText.Acceptable (WrittenAttribute.texts attributes)
  lists : property.Lists property.format (WrittenAttribute.texts attributes)

theorem Measure.StandsWith.mem_tokens {source : String} {measure : Measure}
    {property : CalculationProperty} {attributes : List WrittenAttribute}
    (standsWith : measure.StandsWith source property attributes) {written : WrittenAttribute}
    (member : written ∈ attributes) : written.valueToken ∈ (Input.ofSource source).tokens := by
  obtain ⟨_, front, first, second, named, _, inside, _⟩ := standsWith.stands
  have isToken : written.valueToken ∈ WrittenAttribute.allTokens attributes :=
    List.mem_flatMap.mpr ⟨written, member, by simp [WrittenAttribute.tokens]⟩
  exact inside.subset (by simp [isToken])

/-- A formatting has attributes, and lists them. -/
theorem Rule.Formatting.exists_attributes {used : List Token} {property : CalculationProperty}
    {next : TokenKind} (reading : Rule.Formatting used property next) :
    ∃ first second named attributes,
      used = first :: second :: named :: WrittenAttribute.allTokens attributes ∧
        AttributeText.Acceptable (WrittenAttribute.texts attributes) ∧
          property.Lists property.format (WrittenAttribute.texts attributes) := by
  cases reading with
  | @intro first second named word format _ _ _ _ _ _ _ folded =>
    obtain ⟨attributes, rfl, acceptable, lists⟩ :=
      exists_attributes_of_folded folded (.ofFormat format) .nil
    obtain rfl : property.format = format := lists.format
    exact ⟨first, second, named, attributes, rfl, acceptable, lists⟩

/-- A measure that is recorded with a property has a formatting that lists its attributes. -/
theorem exists_attributes_of_mem_measures {source : String} {options : ScriptOptions}
    {measure : Measure} (member : measure ∈ (readScript source options).measures)
    {property : CalculationProperty} (formatted : measure.property = some property) :
    ∃ attributes, measure.StandsWith source property attributes := by
  obtain ⟨clause, own, last, inside, reading, rfl⟩ := exists_measureClause_of_mem_measures member
  obtain ⟨front, used, rfl, formatting⟩ := reading.exists_formatting formatted
  obtain ⟨first, second, named, attributes, rfl, acceptable, lists⟩ :=
    formatting.exists_attributes
  exact ⟨attributes, ⟨clause, front, first, second, named, last, inside, reading, formatting, rfl⟩,
    acceptable, lists⟩

/-! ## Accuracies -/

/-- An accuracy to which an exact value is rounded: it is at most 32 bits long and the nearest
binary64 number.  A value with at most six decimals is the accuracy itself. -/
structure RoundsToAccuracy (exact : ℚ) (places : Nat) : Prop where
  limit : places ≤ 4294967295
  near : Binary64.Reaches exact places
  exactly : ∀ millionths : Nat, exact = millionths / 10 ^ 6 → exact = places

theorem roundsToAccuracy_iff {exact : ℚ} {places : Nat} :
    RoundsToAccuracy exact places ↔ places ≤ 4294967295 ∧ Binary64.Reaches exact places := by
  refine ⟨fun rounds => ⟨rounds.limit, rounds.near⟩, fun ⟨limit, near⟩ => ⟨limit, near, ?_⟩⟩
  rintro millionths rfl
  exact near.eq_of_millionths (by omega)

/-- **A number of a source is the value of an accuracy if its exact value is rounded to it.** -/
theorem exists_exact_of_mem_tokens {source : String} {token : Token}
    (member : token ∈ (Input.ofSource source).tokens) {value : Binary64}
    (isNumber : token.kind = .number value) :
    ∃ exact, Numeral.exactValue? token.spelling.toList = some exact ∧ ∀ places : Nat,
      (Attribute.accuracy places).IsValued token.kind ↔ RoundsToAccuracy exact places := by
  obtain ⟨exact, denotes, read⟩ := Numeral.exists_exact (value?_of_mem_tokens member isNumber)
  refine ⟨exact, denotes, fun places => ?_⟩
  rw [isNumber, roundsToAccuracy_iff]
  constructor
  · rintro ⟨whole, limit⟩
    exact ⟨limit, (read places (by omega)).mp (Binary64.toNat?_eq_some_iff.mpr whole)⟩
  · rintro ⟨limit, near⟩
    exact .accuracy (Binary64.toNat?_eq_some_iff.mp ((read places (by omega)).mpr near)) limit

/-- A number for an accuracy that has no value yet is accepted if it is one for an accuracy. -/
theorem yields_accuracy_iff {written : WrittenAttribute} (named : written.Names .accuracy)
    {property last : CalculationProperty} (isNew : property.has .accuracy = false)
    {rest : List Token} :
    Yields (formatAttribute property (written.tokens ++ rest)) last rest ↔
      ∃ places, (Attribute.accuracy places).IsValued written.value ∧
        last = property.set (.accuracy places) := by
  constructor
  · intro reading
    obtain ⟨used, same, reading⟩ := (describes_formatAttribute property).sound reading
    obtain rfl := List.append_cancel_right same
    obtain ⟨other, assigned, same, meant, _, rfl⟩ :=
      WrittenAttribute.exists_of_formatAttribute reading
    obtain ⟨sameKey, _, sameValue⟩ : written.key = other.key ∧ written.equals = other.equals ∧
        written.valueToken = other.valueToken := by
      simpa [WrittenAttribute.tokens] using same
    have sameWord : written.word = other.word := by
      have keyed := written.keyed
      rw [sameKey, other.keyed] at keyed
      exact (TokenKind.identifier.inj keyed).symm
    rw [AttributeText.Names, sameWord] at named
    have isAccuracy : assigned.name = .accuracy := meant.names.unique named
    cases assigned with
    | accuracy places =>
      refine ⟨places, ?_, rfl⟩
      rw [← written.valued, sameValue, other.valued]
      exact meant.valued
    | _ => cases isAccuracy
  · rintro ⟨places, valued, rfl⟩
    have meant : written.Means (.accuracy places) := ⟨named, valued⟩
    exact (describes_formatAttribute property).complete (written.formatAttribute meant isNew _)

/-- **The accuracy of a measure is the whole number nearest to what was written**, as far as
binary64 numbers tell it from others, and a number is accepted for an accuracy exactly if it has
one.  A whole number of 32 bits is accepted and recorded as it is. -/
theorem accuracies_nearest (source : String) (options : ScriptOptions) :
    (∀ measure ∈ (readScript source options).measures, ∀ property,
      measure.property = some property → ∃ attributes,
        measure.StandsWith source property attributes ∧
          ∀ written ∈ attributes, written.Names .accuracy → ∃ exact places,
            Numeral.exactValue? written.valueToken.spelling.toList = some exact ∧
              property.accuracy = some places ∧ RoundsToAccuracy exact places) ∧
      ∀ written : WrittenAttribute, written.Names .accuracy →
        written.valueToken ∈ (Input.ofSource source).tokens →
        ∀ value, written.valueToken.kind = .number value → ∃ exact,
          Numeral.exactValue? written.valueToken.spelling.toList = some exact ∧
          (∀ property rest last, property.has .accuracy = false →
            (Yields (formatAttribute property (written.tokens ++ rest)) last rest ↔
              ∃ places, RoundsToAccuracy exact places ∧ last = property.set (.accuracy places))) ∧
          ∀ whole : Nat, exact = whole → whole ≤ 4294967295 → RoundsToAccuracy exact whole := by
  constructor
  · intro measure member property formatted
    obtain ⟨attributes, standsWith⟩ := exists_attributes_of_mem_measures member formatted
    refine ⟨attributes, standsWith, fun written isWritten named => ?_⟩
    -- What the key names is given, and so it is the value of this attribute.
    have typed := standsWith.acceptable.typed written.toAttributeText
      (List.mem_map_of_mem isWritten) .accuracy named
    obtain ⟨assigned, isAccuracy, valued⟩ := typed
    cases assigned with
    | accuracy places =>
      have given := (standsWith.lists.gives (.accuracy places)).mpr
        ⟨_, List.mem_map_of_mem isWritten, named, valued⟩
      rw [← written.valued] at valued
      cases isNumber : written.valueToken.kind with
      | number value =>
        obtain ⟨exact, denotes, rounds⟩ :=
          exists_exact_of_mem_tokens (standsWith.mem_tokens isWritten) isNumber
        exact ⟨exact, places, denotes, given, (rounds places).mp valued⟩
      | _ =>
        rw [isNumber] at valued
        cases valued
    | _ => cases isAccuracy
  · intro written named member value isNumber
    obtain ⟨exact, denotes, rounds⟩ := exists_exact_of_mem_tokens member isNumber
    refine ⟨exact, denotes, fun property rest last isNew => ?_, ?_⟩
    · rw [yields_accuracy_iff named isNew, ← written.valued]
      simp only [rounds]
    · rintro whole rfl limit
      exact roundsToAccuracy_iff.mpr ⟨limit, .whole whole⟩

/-- A number with a decimal that is nothing, and the largest one that is accepted. -/
theorem accuracies_nearest_decimals :
    let source := "CREATE MEASURE T[a]=1 CALCULATION PROPERTY Currency Accuracy=2.0;
      CREATE MEASURE T[b]=1 CALCULATION PROPERTY Text accuracy=4294967295 Format=\"0\""
    (readScript source {}).measures.map (·.property.bind (·.accuracy)) =
        [some 2, some 4294967295] ∧
      ∀ measure ∈ (readScript source {}).measures, ∀ property,
        measure.property = some property → ∃ attributes,
          measure.StandsWith source property attributes ∧
            ∀ written ∈ attributes, written.Names .accuracy → ∃ exact places,
              Numeral.exactValue? written.valueToken.spelling.toList = some exact ∧
                property.accuracy = some places ∧ RoundsToAccuracy exact places := by
  intro source
  exact ⟨by decide +kernel, (accuracies_nearest source {}).1⟩

/-- **Not every accuracy is what was written**: a fraction that is longer than a binary64 number is
taken for one. -/
theorem accuracy_of_longFraction :
    let source :=
      "CREATE MEASURE T[C]=1 CALCULATION PROPERTY Currency Accuracy=1.00000000000000000001"
    (readScript source {}).measures.map (·.property.bind (·.accuracy)) = [some 1] ∧
      (Input.ofSource source).tokens.getLast?.map (·.spelling) = some "1.00000000000000000001" ∧
      ∃ exact, Numeral.exactValue? "1.00000000000000000001".toList = some exact ∧ exact ≠ 1 := by
  intro source
  have ratio : Numeral.ratio? "1.00000000000000000001".toList = some (10 ^ 20 + 1, 10 ^ 20) := by
    decide +kernel
  refine ⟨by decide +kernel, by decide +kernel, (10 ^ 20 + 1) / 10 ^ 20, ?_, by norm_num⟩
  rw [Numeral.exactValue?, ratio]
  norm_num

end DaxScript
