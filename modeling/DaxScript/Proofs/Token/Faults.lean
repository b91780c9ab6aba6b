import DaxScript.Proofs.Token.Placement
import DaxScript.Proofs.Token.Spelling

/-!
# What is wrong with a piece

Two things can be wrong with a piece of a text: it is a character that begins no token, or it is
opened and never closed (`Piece.fault?_cases`).  Whatever is cut off as a numeral can be read as
one, so this is never wrong (`Piece.isSome_value?_splitNumeral`).

Whether a text is closed is decided by reading on to the end of the source, two closing characters
being taken for one where this is how they are written (`Enclosure.NeverCloses`).  What is not
closed ends with its line all the same, and what it says is its line
(`Piece.first_of_neverCloses`).
-/

set_option autoImplicit false

namespace DaxScript

/-! ## Texts that are never closed -/

namespace Enclosure

/-- A text in which what has been opened in front of it is not closed.  Reading on to its end finds
no closing character but those that are written twice. -/
inductive NeverCloses (enclosure : Enclosure) : List Char → Prop where
  | nothing : NeverCloses enclosure []
  | other {char : Char} {chars : List Char} (isOther : char ≠ enclosure.closer)
      (later : NeverCloses enclosure chars) : NeverCloses enclosure (char :: chars)
  | twice {chars : List Char} (doubles : enclosure.doubles = true)
      (later : NeverCloses enclosure chars) :
      NeverCloses enclosure (enclosure.closer :: enclosure.closer :: chars)

/-- **A text is read to its end in vain exactly if it is never closed.** -/
theorem close?_eq_none_iff {enclosure : Enclosure} {chars : List Char} :
    enclosure.close? chars = none ↔ enclosure.NeverCloses chars := by
  fun_induction close? enclosure chars with
  | case1 => exact iff_of_true rfl .nothing
  | case2 =>
    refine iff_of_false (by simp) fun never => ?_
    cases never with
    | other isOther => exact isOther rfl
  | case3 char isOther => exact iff_of_true rfl (.other isOther .nothing)
  | case4 next later doubled ih =>
    obtain ⟨doubles, same⟩ := Bool.and_eq_true_iff.mp doubled
    obtain rfl := beq_iff_eq.mp same
    rw [Option.map_eq_none_iff, ih]
    refine ⟨.twice doubles, fun never => ?_⟩
    cases never with
    | other isOther => exact absurd rfl isOther
    | twice _ never => exact never
  | case5 next later single =>
    refine iff_of_false (by simp) fun never => ?_
    cases never with
    | other isOther => exact isOther rfl
    | twice doubles => simp [doubles] at single
  | case6 char next later isOther ih =>
    rw [Option.map_eq_none_iff, ih]
    refine ⟨.other isOther, fun never => ?_⟩
    cases never with
    | other _ never => exact never
    | twice => exact absurd rfl isOther

end Enclosure

namespace Piece

/-! ## Numerals -/

/-- Digits are a numeral, and so are digits with a point among them. -/
theorem isSome_value? {spelling : List Char}
    (isNumeral : (spelling ≠ [] ∧ ∀ char ∈ spelling, char.isDigit = true) ∨
      ∃ whole fraction, spelling = whole ++ '.' :: fraction ∧
        (∀ char ∈ whole, char.isDigit = true) ∧ (∀ char ∈ fraction, char.isDigit = true) ∧
        ¬(whole = [] ∧ fraction = [])) : (Numeral.value? spelling).isSome = true := by
  rw [Numeral.value?, Option.isSome_map]
  unfold Numeral.ratio?
  dsimp only
  rcases isNumeral with ⟨some, digits⟩ | ⟨whole, fraction, rfl, digits, places, some⟩
  · have atEnd : ([] : List Char).head?.any Char.isDigit = false := rfl
    have run := takeWhile_run digits atEnd
    have rest := dropWhile_run digits atEnd
    rw [List.append_nil] at run rest
    rw [run, rest]
    simp [some]
  · have point : ('.' :: fraction).head?.any Char.isDigit = false := rfl
    rw [takeWhile_run digits point, dropWhile_run digits point]
    simp only
    rw [if_pos ⟨trivial, List.all_eq_true.mpr places, by simpa using some⟩]
    rfl

/-- **Whatever is cut off as a numeral is one.** -/
theorem isSome_value?_splitNumeral {char : Char} {chars : List Char}
    (starts : startsNumeral char chars = true) :
    (Numeral.value? (splitNumeral (char :: chars)).1).isSome = true := by
  -- Without a digit in front there is a point, and a digit behind it.
  have behindPoint (noDigit : char.isDigit = false) :
      char = '.' ∧ ∃ digit later, chars = digit :: later ∧ digit.isDigit = true := by
    rw [startsNumeral, noDigit, Bool.false_or, Bool.and_eq_true, beq_iff_eq] at starts
    cases chars with
    | nil => cases starts.2
    | cons digit later => exact ⟨starts.1, digit, later, rfl, starts.2⟩
  refine isSome_value? ?_
  rcases splitNumeral_cases (char :: chars) with
    ⟨whole, fraction, rest, same, digits, places, stops, noWord⟩ |
    ⟨whole, rest, same, digits, stops, noPoint⟩
  · refine .inr ⟨whole, fraction, ?_, digits, places, ?_⟩
    · rw [same, splitNumeral_point digits places stops noWord]
    · rintro ⟨rfl, rfl⟩
      obtain ⟨rfl, rfl⟩ := List.cons.inj same
      obtain ⟨_, digit, later, rfl, isDigit⟩ := behindPoint rfl
      simp [isDigit] at stops
  · refine .inl ⟨?_, ?_⟩
    · rw [same, splitNumeral_whole digits stops noPoint]
      rintro rfl
      rw [List.nil_append] at same
      subst same
      obtain ⟨rfl, digit, later, rfl, isDigit⟩ := behindPoint (by simpa using stops)
      have word := noPoint _ rfl
      simp [isWordStart_eq_false_of_isDigit isDigit] at word
    · rwa [same, splitNumeral_whole digits stops noPoint]

/-! ## What can be wrong -/

section First

variable (enclosure : Enclosure) {chars : List Char}

/-- **What is never closed ends with its line**, and says what stands on it. -/
theorem first_of_neverCloses (never : enclosure.NeverCloses chars) :
    first enclosure.opener chars =
      (token (enclosure.kind (String.ofList (splitLine chars).1))
        (enclosure.opener :: (splitLine chars).1) (some (.unterminated enclosure)),
        (splitLine chars).2) := by
  rw [first_opener, firstEnclosed, Enclosure.close?_eq_none_iff.mpr never]

end First

/-- **There is nothing else that can be wrong with a piece**: it is a stray character, or it is
never closed. -/
theorem fault?_cases {char : Char} {chars : List Char} {fault : LexicalFault}
    (wrong : (first char chars).1.fault? = some fault) :
    ((first char chars).1 = stray char ∧ fault = .unexpectedCharacter char) ∨
      ∃ enclosure : Enclosure, char = enclosure.opener ∧ enclosure.NeverCloses chars ∧
        fault = .unterminated enclosure := by
  unfold first at wrong ⊢
  split at wrong
  · cases wrong
  split at wrong
  · cases wrong
  split at wrong
  · next starts =>
    obtain ⟨value, known⟩ := Option.isSome_iff_exists.mp (isSome_value?_splitNumeral starts)
    simp only [ofNumeral, known] at wrong
    cases wrong
  split at wrong
  · simp only [ofWord] at wrong
    split at wrong <;> cases wrong
  next notWhite noComment noNumeral noWord =>
  rw [if_neg notWhite, if_neg noComment, if_neg noNumeral, if_neg noWord]
  split at wrong
  · next enclosure opens =>
    simp only [firstEnclosed] at wrong
    split at wrong
    · cases wrong
    · next never =>
      cases wrong
      exact .inr ⟨enclosure, opener_of_ofOpener? opens, Enclosure.close?_eq_none_iff.mp never, rfl⟩
  · unfold firstSymbol at wrong ⊢
    split at wrong
    · cases wrong
    · split at wrong
      · cases wrong
      · cases wrong
        exact .inl ⟨rfl, rfl⟩

end Piece

end DaxScript
