import DaxScript.Proofs.Grammar.Rule

/-!
# Productions and the rules that describe them

A rule describes a production when the production reads exactly what the rule says: whatever it
reads off the front of a list is a reading of the rule (`Describes.sound`), and every reading of
the rule is read off the front of any list that goes on with the right token
(`Describes.complete`).

The productions that repeat other productions are described by the rules for repetition.
-/

set_option autoImplicit false

namespace DaxScript

open Production

variable {α β γ : Type} {count : Nat} {tokens rest : List Token}

/-- A reading that succeeds with a value and leaves the given tokens. -/
def Yields (reading : Reading α count tokens) (value : α) (rest : List Token) : Prop :=
  ∃ parsed, reading = .ok parsed ∧ parsed.value = value ∧ parsed.rest = rest

namespace Yields

variable {value : α}

theorem of_ok {parsed : Parsed α count tokens} :
    Yields (.ok parsed) parsed.value parsed.rest :=
  ⟨parsed, rfl, rfl, rfl⟩

/-- A reading that has the right value and rest. -/
theorem ok {parsed : Parsed α count tokens} (sameValue : parsed.value = value)
    (sameRest : parsed.rest = rest) : Yields (.ok parsed) value rest :=
  ⟨parsed, rfl, sameValue, sameRest⟩

theorem ok_iff {parsed : Parsed α count tokens} :
    Yields (.ok parsed) value rest ↔ parsed.value = value ∧ parsed.rest = rest := by
  constructor
  · rintro ⟨_, same, sameValue, sameRest⟩
    cases same
    exact ⟨sameValue, sameRest⟩
  · rintro ⟨sameValue, sameRest⟩
    exact ok sameValue sameRest

theorem not_error {refusal : Refusal} :
    ¬Yields (.error refusal : Reading α count tokens) value rest := by
  rintro ⟨_, same, _⟩
  cases same

/-- The parts of a reading in two steps. -/
theorem bind {between : Nat} {others : List Token} {first : Reading β between others}
    {further : Parsed β between others → Reading α count tokens}
    (reading : Yields (first >>= further) value rest) :
    ∃ middle left fits, Yields first middle left ∧
      Yields (further ⟨middle, left, fits⟩) value rest := by
  cases first with
  | error refusal => exact absurd reading not_error
  | ok parsed => exact ⟨parsed.value, parsed.rest, parsed.fits, of_ok, reading⟩

/-- A reading in two steps. -/
theorem andThen {between : Nat} {others : List Token} {first : Reading β between others}
    {further : Parsed β between others → Reading α count tokens} {middle : β}
    {left : List Token} (earlier : Yields first middle left)
    (later : ∀ fits, Yields (further ⟨middle, left, fits⟩) value rest) :
    Yields (first >>= further) value rest := by
  obtain ⟨parsed, rfl, rfl, rfl⟩ := earlier
  exact later parsed.fits

end Yields

/-- The production reads what the rule says, and nothing else. -/
structure Describes (rule : Rule α) (production : Production α count) : Prop where
  sound : ∀ {tokens : List Token} {value : α} {rest : List Token},
    Yields (production tokens) value rest →
      ∃ used, tokens = used ++ rest ∧ rule used value (nextKind rest)
  complete : ∀ {used : List Token} {value : α} {rest : List Token},
    rule used value (nextKind rest) → Yields (production (used ++ rest)) value rest

/-! ## Single tokens -/

theorem yields_symbol_iff {sign : Symbol} {token : Token} :
    Yields (symbol sign tokens) token rest ↔ tokens = token :: rest ∧ token.kind = .symbol sign := by
  cases tokens with
  | nil => simp [symbol, Yields.not_error]
  | cons first others =>
    by_cases same : first.kind = .symbol sign
    · simp only [symbol, if_pos same, Yields.ok_iff, Parsed.value_single, Parsed.rest_single,
        List.cons.injEq]
      constructor
      · rintro ⟨rfl, rfl⟩
        exact ⟨⟨rfl, rfl⟩, same⟩
      · rintro ⟨both, _⟩
        exact both
    · simp only [symbol, if_neg same, Yields.not_error, List.cons.injEq, false_iff]
      rintro ⟨⟨rfl, _⟩, kind⟩
      exact same kind

theorem yields_symbol {sign : Symbol} {token : Token} (same : token.kind = .symbol sign) :
    Yields (symbol sign (token :: rest)) token rest :=
  yields_symbol_iff.mpr ⟨rfl, same⟩

theorem yields_keyword_iff {word : Keyword} {token : Token} :
    Yields (keyword word tokens) token rest ↔ tokens = token :: rest ∧ token.kind = .keyword word := by
  cases tokens with
  | nil => simp [keyword, Yields.not_error]
  | cons first others =>
    by_cases same : first.kind = .keyword word
    · simp only [keyword, if_pos same, Yields.ok_iff, Parsed.value_single, Parsed.rest_single,
        List.cons.injEq]
      constructor
      · rintro ⟨rfl, rfl⟩
        exact ⟨⟨rfl, rfl⟩, same⟩
      · rintro ⟨both, _⟩
        exact both
    · simp only [keyword, if_neg same, Yields.not_error, List.cons.injEq, false_iff]
      rintro ⟨⟨rfl, _⟩, kind⟩
      exact same kind

theorem yields_keyword {word : Keyword} {token : Token} (same : token.kind = .keyword word) :
    Yields (keyword word (token :: rest)) token rest :=
  yields_keyword_iff.mpr ⟨rfl, same⟩

theorem yields_weaken_iff {production : Production α count} {value : α} :
    Yields (Production.weaken production tokens) value rest ↔
      Yields (production tokens) value rest := by
  unfold Production.weaken
  constructor
  · intro reading
    obtain ⟨_, _, _, strong, weakened⟩ := reading.bind
    obtain ⟨rfl, rfl⟩ := Yields.ok_iff.mp weakened
    exact strong
  · intro reading
    exact reading.andThen fun _ => Yields.of_ok

theorem Describes.weaken {rule : Rule α} {production : Production α count}
    (described : Describes rule production) : Describes rule (Production.weaken production) where
  sound reading := described.sound (yields_weaken_iff.mp reading)
  complete reading := yields_weaken_iff.mpr (described.complete reading)

/-! ## Repetition -/

theorem describes_afterComma {rule : Rule α} {item : Production α 0}
    (described : Describes rule item) : Describes (.AfterComma rule) (afterComma item) where
  sound reading := by
    obtain ⟨comma, left, _, first, reading⟩ := reading.bind
    obtain ⟨next, others, _, second, reading⟩ := reading.bind
    obtain ⟨rfl, rfl⟩ := Yields.ok_iff.mp reading
    obtain ⟨rfl, sign⟩ := yields_symbol_iff.mp first
    obtain ⟨used, rfl, read⟩ := described.sound second
    exact ⟨comma :: used, rfl, .intro sign read⟩
  complete reading := by
    cases reading with
    | intro sign reading =>
      refine (yields_symbol sign).andThen fun _ => ?_
      refine (described.complete reading).andThen fun _ => ?_
      exact Yields.of_ok

/-- The two ways in which a repetition reads. -/
theorem yields_manyWhile_iff {continues : TokenKind → Bool} {item : Production α 1}
    {values : List α} :
    Yields (manyWhile continues item tokens) values rest ↔
      (continues (nextKind tokens) = false ∧ values = [] ∧ rest = tokens) ∨
      (continues (nextKind tokens) = true ∧ ∃ value left others, values = value :: others ∧
        Yields (item tokens) value left ∧ Yields (manyWhile continues item left) others rest) := by
  rw [manyWhile]
  cases goesOn : continues (nextKind tokens) with
  | false =>
    simp only [Bool.false_eq_true, if_false, Yields.ok_iff, Parsed.value_nothing,
      Parsed.rest_nothing, true_and, false_and, or_false]
    exact and_congr eq_comm eq_comm
  | true =>
    simp only [if_true, Bool.true_eq_false, false_and, true_and, false_or]
    constructor
    · intro reading
      obtain ⟨first, left, _, earlier, reading⟩ := reading.bind
      obtain ⟨others, last, _, later, reading⟩ := reading.bind
      obtain ⟨rfl, rfl⟩ := Yields.ok_iff.mp reading
      exact ⟨_, _, _, rfl, earlier, later⟩
    · rintro ⟨value, left, others, rfl, earlier, later⟩
      exact earlier.andThen fun _ => later.andThen fun _ => Yields.of_ok

theorem describes_manyWhile {rule : Rule α} {continues : TokenKind → Bool} {item : Production α 1}
    (described : Describes rule item) :
    Describes (.Repeated continues rule) (manyWhile continues item) where
  sound {tokens values rest} reading := by
    induction values generalizing tokens with
    | nil =>
      rcases yields_manyWhile_iff.mp reading with ⟨stops, _, rfl⟩ | ⟨_, _, _, _, same, _⟩
      · exact ⟨[], rfl, .done stops⟩
      · cases same
    | cons value values ih =>
      rcases yields_manyWhile_iff.mp reading with
        ⟨_, same, _⟩ | ⟨goesOn, _, left, _, same, earlier, later⟩
      · cases same
      · cases same
        obtain ⟨used, rfl, read⟩ := described.sound earlier
        obtain ⟨more, rfl, others⟩ := ih later
        refine ⟨used ++ more, (List.append_assoc _ _ _).symm, .more ?_ ?_ others⟩
        · simpa using goesOn
        · simpa using read
  complete {used values rest} reading := by
    generalize following : nextKind rest = next at reading
    induction reading with
    | done stops =>
      exact yields_manyWhile_iff.mpr (.inl ⟨by simpa [following] using stops, rfl, rfl⟩)
    | @more used later value values next goesOn reading others ih =>
      refine yields_manyWhile_iff.mpr (.inr ⟨?_, value, later ++ rest, values, rfl, ?_, ih following⟩)
      · simpa [following] using goesOn
      · rw [List.append_assoc]
        exact described.complete (by simpa [following] using reading)

/-- The two ways in which a state is taken through steps. -/
theorem yields_foldWhile_iff {continues : TokenKind → Bool} {step : β → Production β 1}
    {state last : β} :
    Yields (foldWhile continues step state tokens) last rest ↔
      (continues (nextKind tokens) = false ∧ last = state ∧ rest = tokens) ∨
      (continues (nextKind tokens) = true ∧ ∃ middle left, Yields (step state tokens) middle left ∧
        Yields (foldWhile continues step middle left) last rest) := by
  rw [foldWhile]
  cases goesOn : continues (nextKind tokens) with
  | false =>
    simp only [Bool.false_eq_true, if_false, Yields.ok_iff, Parsed.value_nothing,
      Parsed.rest_nothing, true_and, false_and, or_false]
    exact and_congr eq_comm eq_comm
  | true =>
    simp only [if_true, Bool.true_eq_false, false_and, true_and, false_or]
    constructor
    · intro reading
      obtain ⟨middle, left, _, earlier, reading⟩ := reading.bind
      obtain ⟨final, after, _, later, reading⟩ := reading.bind
      obtain ⟨rfl, rfl⟩ := Yields.ok_iff.mp reading
      exact ⟨_, _, earlier, later⟩
    · rintro ⟨middle, left, earlier, later⟩
      exact earlier.andThen fun _ => later.andThen fun _ => Yields.of_ok

theorem describes_foldWhile {rule : β → Rule β} {continues : TokenKind → Bool}
    {step : β → Production β 1} (described : ∀ state, Describes (rule state) (step state))
    (state : β) : Describes (.Folded continues rule state) (foldWhile continues step state) where
  sound {tokens last rest} reading := by
    -- Every step reads a token, so the tokens get fewer.
    induction counted : tokens.length using Nat.strongRecOn generalizing tokens state with
    | ind size ih =>
      rcases yields_foldWhile_iff.mp reading with
        ⟨stops, rfl, rfl⟩ | ⟨goesOn, middle, left, earlier, later⟩
      · exact ⟨[], rfl, .done stops⟩
      · have shorter : left.length < size := by
          obtain ⟨parsed, _, _, rfl⟩ := earlier
          have := parsed.fits
          omega
        obtain ⟨used, rfl, read⟩ := (described state).sound earlier
        obtain ⟨more, rfl, others⟩ := ih left.length shorter middle later rfl
        refine ⟨used ++ more, (List.append_assoc _ _ _).symm, .more ?_ ?_ others⟩
        · simpa using goesOn
        · simpa using read
  complete {used last rest} reading := by
    generalize following : nextKind rest = next at reading
    induction reading with
    | done stops =>
      exact yields_foldWhile_iff.mpr (.inl ⟨by simpa [following] using stops, rfl, rfl⟩)
    | @more state middle last used later next goesOn reading others ih =>
      refine yields_foldWhile_iff.mpr (.inr ⟨?_, middle, later ++ rest, ?_, ih following⟩)
      · simpa [following] using goesOn
      · rw [List.append_assoc]
        exact (described state).complete (by simpa [following] using reading)

theorem describes_commaSeparated {rule : Rule α} {item : Production α 0}
    (described : Describes rule item) : Describes (.CommaSeparated rule) (commaSeparated item) :=
  describes_manyWhile (describes_afterComma described)

theorem describes_separated {rule : Rule α} {item : Production α count}
    (described : Describes rule item) : Describes (.Separated rule) (separated item) where
  sound reading := by
    obtain ⟨first, left, _, earlier, reading⟩ := reading.bind
    obtain ⟨others, last, _, later, reading⟩ := reading.bind
    obtain ⟨rfl, rfl⟩ := Yields.ok_iff.mp reading
    obtain ⟨used, rfl, read⟩ := described.sound earlier
    obtain ⟨more, rfl, readOthers⟩ := (describes_commaSeparated described.weaken).sound later
    rw [nextKind_append] at read
    exact ⟨used ++ more, (List.append_assoc _ _ _).symm, .intro read readOthers⟩
  complete reading := by
    cases reading with
    | intro reading others =>
      rw [← nextKind_append] at reading
      rw [List.append_assoc]
      refine (described.complete reading).andThen fun _ => ?_
      refine ((describes_commaSeparated described.weaken).complete others).andThen fun _ => ?_
      exact Yields.of_ok

theorem describes_separatedUnless {rule : Rule α} {item : Production α count} {close : Symbol}
    (described : Describes rule item) :
    Describes (.SeparatedUnless close rule) (separatedUnless close item) where
  sound {tokens values rest} reading := by
    unfold separatedUnless at reading
    split at reading
    · next closes =>
      obtain ⟨rfl, rfl⟩ := Yields.ok_iff.mp reading
      exact ⟨[], rfl, .none (by simpa [isSymbol] using closes)⟩
    · next opens =>
      obtain ⟨used, rfl, items⟩ := (describes_separated described).weaken.sound reading
      exact ⟨used, rfl, .some (by simpa [isSymbol] using opens) items⟩
  complete {used values rest} reading := by
    unfold separatedUnless
    cases reading with
    | none closes =>
      rw [if_pos (by simpa [isSymbol] using closes)]
      exact Yields.of_ok
    | some opens items =>
      rw [if_neg (by simpa [isSymbol] using opens)]
      exact (describes_separated described).weaken.complete items

end DaxScript
