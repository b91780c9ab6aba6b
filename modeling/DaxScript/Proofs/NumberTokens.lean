import DaxScript.Proofs.ExactDiagnostics

/-!
# Numbers are as long as they can be

A number is written with digits, with digits and a point that more digits may follow, or with a
point and digits.  Cutting a source never goes wrong with numbers: what is cut off is written in one
of these ways and is read as the quotient that it denotes, so that no number is ever called invalid
(`numbers_maximal`).

Where a number ends is decided by the two characters behind its leading digits.  A point belongs to
it unless a word begins behind the point, and no digit is left behind the number.  So `1..5` is two
numbers, and `1.x` is a number, a point and a name.
-/

set_option autoImplicit false

namespace DaxScript

/-! ## The ways of writing a number -/

namespace Numeral

/-- What a numeral denotes, as numerator and denominator, for each way of writing one. -/
inductive Denotes : List Char → Nat → Nat → Prop where
  | whole {digits : List Char} (some : digits ≠ [])
      (isWhole : ∀ char ∈ digits, char.isDigit = true) :
      Denotes digits (Nat.ofDigitChars 10 digits 0) 1
  | pointed {digits places : List Char} (some : digits ≠ [])
      (isWhole : ∀ char ∈ digits, char.isDigit = true)
      (isFraction : ∀ char ∈ places, char.isDigit = true) :
      Denotes (digits ++ '.' :: places) (Nat.ofDigitChars 10 (digits ++ places) 0)
        (Nat.pow 10 places.length)
  | fraction {places : List Char} (some : places ≠ [])
      (isFraction : ∀ char ∈ places, char.isDigit = true) :
      Denotes ('.' :: places) (Nat.ofDigitChars 10 places 0) (Nat.pow 10 places.length)

theorem wholeNumber_eq_ofDigitChars (digits : List Char) :
    wholeNumber digits = Nat.ofDigitChars 10 digits 0 :=
  rfl

theorem ratio?_whole {digits : List Char} (some : digits ≠ [])
    (isWhole : ∀ char ∈ digits, char.isDigit = true) :
    ratio? digits = .some (Nat.ofDigitChars 10 digits 0, 1) := by
  have atEnd : ([] : List Char).head?.any Char.isDigit = false := rfl
  have run := takeWhile_run isWhole atEnd
  have rest := dropWhile_run isWhole atEnd
  rw [List.append_nil] at run rest
  rw [ratio?, run, rest]
  simp [some, wholeNumber_eq_ofDigitChars]

theorem ratio?_point {digits places : List Char} (isWhole : ∀ char ∈ digits, char.isDigit = true)
    (isFraction : ∀ char ∈ places, char.isDigit = true) (some : ¬(digits = [] ∧ places = [])) :
    ratio? (digits ++ '.' :: places) =
      .some (Nat.ofDigitChars 10 (digits ++ places) 0, Nat.pow 10 places.length) := by
  have point : ('.' :: places).head?.any Char.isDigit = false := rfl
  rw [ratio?, takeWhile_run isWhole point, dropWhile_run isWhole point]
  simp only
  rw [if_pos ⟨trivial, List.all_eq_true.mpr isFraction, by simpa using some⟩,
    wholeNumber_eq_ofDigitChars, powerOfTen]

/-- **A text is a number exactly if it is written in one of these ways**, and its value is the
nearest to what it denotes. -/
theorem value?_eq_some_iff {text : List Char} {value : Binary64} :
    value? text = some value ↔
      ∃ numerator denominator, Denotes text numerator denominator ∧
        value = .ofRatio numerator denominator := by
  constructor
  · intro known
    obtain ⟨ratio, found, rfl⟩ := Option.map_eq_some_iff.mp known
    refine ⟨ratio.1, ratio.2, ?_, rfl⟩
    rcases Piece.numeral_cases known with
      ⟨some, isWhole⟩ | ⟨digits, places, rfl, isWhole, isFraction, some⟩
    · rw [ratio?_whole some isWhole] at found
      cases found
      exact .whole some isWhole
    · rw [ratio?_point isWhole isFraction some] at found
      cases found
      by_cases none : digits = []
      · subst none
        exact .fraction (fun nothing => some ⟨rfl, nothing⟩) isFraction
      · exact .pointed none isWhole isFraction
  · rintro ⟨_, _, denotes, rfl⟩
    cases denotes with
    | whole some isWhole => rw [value?, ratio?_whole some isWhole, Option.map_some]
    | pointed some isWhole isFraction =>
      rw [value?, ratio?_point isWhole isFraction fun none => some none.1, Option.map_some]
    | @fraction places some isFraction =>
      have found := @ratio?_point [] places (fun _ none => by cases none) isFraction
        fun none => some none.2
      rw [List.nil_append] at found
      rw [value?, found, Option.map_some]
      rfl

end Numeral

/-! ## Numbers of a source -/

/-- A token of a source that is a number is written as one, and ends as late as possible. -/
structure Token.IsMaximalNumber (source : String) (token : Token) (value : Binary64) : Prop where
  /-- What the number is read from denotes its value. -/
  denotes : ∃ numerator denominator,
    Numeral.Denotes token.spelling.toList numerator denominator ∧
      value = .ofRatio numerator denominator
  covers : token.span.slice? source.toList = some token.spelling.toList
  /-- A point behind leading digits is left out exactly where a word begins behind it. -/
  point : ∀ before digits later, source.toList = before ++ (digits ++ '.' :: later) →
    byteLength before = token.span.start → digits ≠ [] →
    (∀ char ∈ digits, char.isDigit = true) →
      (digits ++ ['.'] <+: token.spelling.toList ↔ later.head?.any isWordStart = false)
  /-- No digit stands behind the number. -/
  ends : ∀ before behind, source.toList = before ++ (token.spelling.toList ++ behind) →
    byteLength before = token.span.start → behind.head?.any Char.isDigit = false

namespace Piece

/-- A piece that is a number is what is cut off as a numeral. -/
theorem splitNumeral_of_first {char : Char} {chars rest spelling : List Char} {value : Binary64}
    {fault : Option LexicalFault}
    (read : first char chars = (token (.number value) spelling fault, rest)) :
    splitNumeral (char :: chars) = (spelling, rest) ∧ Numeral.value? spelling = some value := by
  unfold first at read
  split at read
  · cases read
  split at read
  · cases read
  split at read
  · next starts =>
    obtain ⟨known, isKnown⟩ := Option.isSome_iff_exists.mp (isSome_value?_splitNumeral starts)
    simp only [ofNumeral, isKnown] at read
    cases read
    exact ⟨rfl, isKnown⟩
  split at read
  · simp only [ofWord] at read
    split at read <;> cases read
  split at read
  · next enclosure _ =>
    simp only [firstEnclosed] at read
    split at read <;> cases enclosure <;> cases read
  · simp only [firstSymbol] at read
    split at read
    · cases read
    · split at read <;> cases read

/-- A point behind leading digits is cut off with them unless a word begins behind it. -/
theorem point_splitNumeral_iff {digits later : List Char}
    (isWhole : ∀ char ∈ digits, char.isDigit = true) :
    digits ++ ['.'] <+: (splitNumeral (digits ++ '.' :: later)).1 ↔
      later.head?.any isWordStart = false := by
  have atPoint : ('.' :: later).head?.any Char.isDigit = false := rfl
  rw [splitNumeral, takeWhile_run isWhole atPoint, dropWhile_run isWhole atPoint]
  simp only [true_and, Bool.not_eq_true]
  split
  · next noWord => simp [noWord]
  · next word =>
    refine iff_of_false (fun longer => ?_) word
    have size : (digits ++ ['.']).length ≤ digits.length := longer.length_le
    rw [List.length_append, List.length_singleton] at size
    omega

end Piece

section Source

variable {source : String} {token : Token}

/-- **A number ends as late as possible.** -/
theorem isMaximalNumber_of_mem_tokenize (member : token ∈ tokenize source) {value : Binary64}
    (isNumber : token.kind = .number value) : token.IsMaximalNumber source value := by
  have covers := slice?_of_mem_tokenize member
  rw [tokenize_eq] at member
  rcases List.mem_append.mp member with own | isLast
  · obtain ⟨front, kind, spelling, fault, behind, cut, rfl, _, _⟩ := Piece.exists_of_mem_source own
    obtain ⟨char, chars, split, read⟩ := Piece.first_of_cut cut
    obtain rfl : kind = .number value := isNumber
    obtain ⟨numeral, known⟩ := Piece.splitNumeral_of_first read
    -- The number begins at its offset, however the source is cut there.
    have here {before after : List Char} (same : source.toList = before ++ after)
        (starts : byteLength before = (Token.place (.number value)
          (Position.start.advanceAll (Piece.text front)) spelling).span.start) :
        char :: chars = after := by
      rw [split] at same
      refine (append_inj_of_byteLength same ?_).2
      rw [starts]
      simp [Token.place, Position.start]
    have written : (Token.place (.number value)
        (Position.start.advanceAll (Piece.text front)) spelling).spelling.toList = spelling :=
      String.toList_ofList
    refine ⟨?_, covers, fun before digits later same starts _ isWhole => ?_,
      fun before after same starts => ?_⟩
    · rw [written]
      exact Numeral.value?_eq_some_iff.mp known
    · rw [written, ← Piece.point_splitNumeral_iff isWhole, ← here same starts, numeral]
    · have whole := Piece.splitNumeral_append (char :: chars)
      rw [written] at same
      rw [numeral, here same starts] at whole
      have stops := Piece.head?_splitNumeral (char :: chars)
      rwa [numeral, List.append_cancel_left whole] at stops
  · rw [List.mem_singleton.mp isLast] at isNumber
    cases isNumber

/-- What is wrong with a piece of a source is never a number. -/
theorem fault?_ne_invalidNumber {piece : Piece} (member : piece ∈ Piece.all source.toList)
    (spelling : String) : piece.fault? ≠ some (.invalidNumber spelling) := by
  intro wrong
  obtain ⟨front, behind, cut⟩ := List.append_of_mem member
  obtain ⟨char, chars, _, read⟩ := Piece.first_of_cut cut
  obtain rfl : (Piece.first char chars).1 = piece := congrArg Prod.fst read
  rcases Piece.fault?_cases wrong with ⟨_, same⟩ | ⟨_, _, _, same⟩ <;> cases same

/-- No number is told to be invalid. -/
theorem message_ne_invalidNumber {diagnostic : Diagnostic}
    (told : diagnostic ∈ lexicalDiagnostics source) (spelling : String) :
    diagnostic.message ≠ (LexicalFault.invalidNumber spelling).message := by
  -- What is told begins with another letter.
  have letter : diagnostic.message.toList.head? = some 'u' := by
    rcases ((exactlyTold source).told_iff diagnostic).mp told with
      ⟨_, _, _, _, _, _, rfl⟩ | ⟨_, _, enclosure, _, _, rfl⟩
    · simp [Diagnostic.error, String.toList_append]
    · have message : enclosure.unclosedMessage.toList.head? = some 'u' := by
        cases enclosure <;> decide +kernel
      exact message
  intro invalid
  have written : (LexicalFault.invalidNumber spelling).message =
      "invalid number \"" ++ spelling ++ "\"" := rfl
  rw [invalid, written] at letter
  simp [String.toList_append] at letter

end Source

/-- **Numbers are cut off as long as they can be, and always read**, whatever the source is. -/
theorem numbers_maximal (source : String) :
    (∀ token ∈ tokenize source, ∀ value, token.kind = .number value →
      token.IsMaximalNumber source value) ∧
      (∀ piece ∈ Piece.all source.toList, ∀ spelling,
        piece.fault? ≠ some (.invalidNumber spelling)) ∧
      ∀ diagnostic ∈ lexicalDiagnostics source, ∀ spelling,
        diagnostic.message ≠ (LexicalFault.invalidNumber spelling).message :=
  ⟨fun _ member _ isNumber => isMaximalNumber_of_mem_tokenize member isNumber,
    fun _ member spelling => fault?_ne_invalidNumber member spelling,
    fun _ told spelling => message_ne_invalidNumber told spelling⟩

/-- In `1..5 2.x .5`, where the numbers are `1.`, `.5`, `2` and `.5`. -/
theorem numbers_maximal_points :
    ((tokenize "1..5 2.x .5").filterMap fun token =>
      match token.kind with
      | .number _ => some token.spelling
      | _ => none) = ["1.", ".5", "2", ".5"] ∧
      ∀ token ∈ tokenize "1..5 2.x .5", ∀ value, token.kind = .number value →
        token.IsMaximalNumber "1..5 2.x .5" value :=
  ⟨by decide +kernel, (numbers_maximal "1..5 2.x .5").1⟩

end DaxScript
