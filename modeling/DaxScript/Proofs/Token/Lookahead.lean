import DaxScript.Token.Piece

/-!
# What a piece sees of the text behind it

A piece ends where the next character cannot belong to it.  Only a numeral looks one character
further, since a point that a word follows is no part of it.  So the text behind a piece may be
exchanged for one that looks the same from there, or cut off, or begin with a line feed, and the
piece stays the same (`Piece.first_exchange`).  The exception is a piece that is not closed, which
stays the same only when the text behind it is cut off: its line ends there.

Three consequences about whole texts follow.  A piece is the only one of its own text
(`Piece.all_spelling`), pieces that follow each other in a text are the pieces of their part of
the text (`Piece.all_cut`), and the pieces of a text stay the same when further lines are added to
it (`Piece.all_append`).
-/

set_option autoImplicit false

namespace DaxScript

/-! ## Runs of characters -/

section Runs

variable {belongs : Char → Bool} {run rest : List Char}

/-- A run ends before a character that does not belong to it. -/
theorem takeWhile_run (inside : ∀ char ∈ run, belongs char = true)
    (stops : rest.head?.any belongs = false) : (run ++ rest).takeWhile belongs = run := by
  rw [List.takeWhile_append_of_pos inside]
  cases rest with
  | nil => simp
  | cons char rest =>
    have stops : belongs char = false := stops
    simp [stops]

theorem dropWhile_run (inside : ∀ char ∈ run, belongs char = true)
    (stops : rest.head?.any belongs = false) : (run ++ rest).dropWhile belongs = rest := by
  rw [List.dropWhile_append_of_pos inside]
  cases rest with
  | nil => rfl
  | cons char rest =>
    have stops : belongs char = false := stops
    simp [stops]

theorem belongs_of_mem_takeWhile (belongs : Char → Bool) (chars : List Char) :
    ∀ char ∈ chars.takeWhile belongs, belongs char = true := by
  intro char member
  exact List.all_eq_true.mp (List.all_takeWhile) char member

theorem head?_dropWhile_any (belongs : Char → Bool) (chars : List Char) :
    (chars.dropWhile belongs).head?.any belongs = false := by
  have found := List.head?_dropWhile_not belongs chars
  cases same : (chars.dropWhile belongs).head? with
  | none => rfl
  | some char =>
    rw [same] at found
    simpa using found

end Runs

/-! ## Texts that look the same -/

/-- A text may stand in the place of another behind a piece: it begins with the same character,
and behind a point a word begins in both or in none; or it is empty or begins with a line feed. -/
def MayReplace (other rest : List Char) : Prop :=
  (other.head? = rest.head? ∧ (other.head? = some '.' →
    (other.drop 1).head?.any isWordStart = (rest.drop 1).head?.any isWordStart)) ∨
  ∀ char ∈ other.head?, char = '\n'

namespace MayReplace

/-- Nothing may stand in the place of any text. -/
theorem nil (rest : List Char) : MayReplace [] rest :=
  .inr fun _ found => nomatch found

variable {other rest : List Char} (may : MayReplace other rest)
include may

/-- What a line feed is not and the next character is not, the next character is not
afterwards. -/
theorem head? (belongs : Char → Bool) (lineFeed : belongs '\n' = false)
    (stops : rest.head?.any belongs = false) : other.head?.any belongs = false := by
  rcases may with ⟨same, _⟩ | ends
  · rw [same]
    exact stops
  · cases found : other.head? with
    | none => rfl
    | some char =>
      obtain rfl := ends char found
      exact lineFeed

/-- The same with characters in front. -/
theorem head?_append (belongs : Char → Bool) (lineFeed : belongs '\n' = false)
    {front : List Char} (stops : (front ++ rest).head?.any belongs = false) :
    (front ++ other).head?.any belongs = false := by
  cases front with
  | nil => exact may.head? belongs lineFeed stops
  | cons => exact stops

/-- The same text in front of both keeps them alike. -/
theorem append (front : List Char)
    (point : front = ['.'] → other.head?.any isWordStart = rest.head?.any isWordStart) :
    MayReplace (front ++ other) (front ++ rest) := by
  cases front with
  | nil => exact may
  | cons first front =>
    refine .inl ⟨rfl, fun isPoint => ?_⟩
    cases front with
    | nil =>
      cases isPoint
      exact point rfl
    | cons => rfl

end MayReplace

/-! ## Enclosed texts -/

namespace Enclosure

/-- A closing character that may be written twice is not written twice where the text ends. -/
theorem head?_rest_of_doubles {enclosure : Enclosure} {chars : List Char} {closed : Closed}
    (found : enclosure.close? chars = some closed) (doubles : enclosure.doubles = true) :
    closed.rest.head?.any (· == enclosure.closer) = false := by
  fun_induction close? enclosure chars generalizing closed with
  | case1 => cases found
  | case2 =>
    cases found
    rfl
  | case3 => cases found
  | case4 next later doubled ih =>
    obtain ⟨inner, innerFound, rfl⟩ := Option.map_eq_some_iff.mp found
    have notTwice := ih innerFound
    exact notTwice
  | case5 next later single =>
    cases found
    simpa [doubles] using single
  | case6 char next later notCloser ih =>
    obtain ⟨inner, innerFound, rfl⟩ := Option.map_eq_some_iff.mp found
    have notTwice := ih innerFound
    exact notTwice

/-- A closing character that is not written twice ends the text. -/
theorem close?_closer {enclosure : Enclosure} {rest : List Char}
    (single : enclosure.doubles = true → rest.head?.any (· == enclosure.closer) = false) :
    enclosure.close? (enclosure.closer :: rest) = some ⟨[], [enclosure.closer], rest⟩ := by
  cases rest with
  | nil => simp [close?]
  | cons next later =>
    have notTwice : (enclosure.doubles && next == enclosure.closer) = false := by
      cases doubles : enclosure.doubles with
      | false => rfl
      | true => exact single doubles
    simp [close?, notTwice]

/-- Another character is read on. -/
theorem close?_cons {enclosure : Enclosure} {char : Char} (notCloser : char ≠ enclosure.closer)
    (chars : List Char) :
    enclosure.close? (char :: chars) =
      (enclosure.close? chars).map (Closed.prepend [char] [char]) := by
  cases chars with
  | nil => simp [close?, notCloser]
  | cons next later => rw [close?, if_neg notCloser]

/-- What stands behind an enclosed text may be exchanged. -/
theorem close?_exchange {enclosure : Enclosure} {chars other : List Char} {closed : Closed}
    (found : enclosure.close? chars = some closed)
    (single : enclosure.doubles = true → other.head?.any (· == enclosure.closer) = false) :
    enclosure.close? (closed.spelling ++ other) =
      some ⟨closed.content, closed.spelling, other⟩ := by
  fun_induction close? enclosure chars generalizing closed with
  | case1 => cases found
  | case2 =>
    cases found
    exact close?_closer single
  | case3 => cases found
  | case4 next later doubled ih =>
    obtain ⟨inner, innerFound, rfl⟩ := Option.map_eq_some_iff.mp found
    have read := ih innerFound
    simp [Closed.prepend, close?, doubled, read]
  | case5 next later notTwice =>
    cases found
    exact close?_closer single
  | case6 char next later notCloser ih =>
    obtain ⟨inner, innerFound, rfl⟩ := Option.map_eq_some_iff.mp found
    have read := ih innerFound
    simp [Closed.prepend, close?_cons notCloser, read]

/-- What is never closed is not closed in a part of it either. -/
theorem close?_eq_none_of_append {enclosure : Enclosure} {chars more : List Char}
    (never : enclosure.close? (chars ++ more) = none)
    (stops : more.head?.any (· == enclosure.closer) = false) : enclosure.close? chars = none := by
  cases found : enclosure.close? chars with
  | none => rfl
  | some closed =>
    have single : enclosure.doubles = true →
        (closed.rest ++ more).head?.any (· == enclosure.closer) = false := by
      intro doubles
      have notTwice := head?_rest_of_doubles found doubles
      cases rest : closed.rest with
      | nil => exact stops
      | cons next later => rwa [rest] at notTwice
    have again := close?_exchange found single
    rw [← List.append_assoc, spelling_append_rest found, never] at again
    cases again

end Enclosure

namespace Piece

/-! ## Numerals -/

/-- Digits with a point among them. -/
theorem splitNumeral_point {whole fraction rest : List Char}
    (digits : ∀ char ∈ whole, char.isDigit = true)
    (places : ∀ char ∈ fraction, char.isDigit = true)
    (stops : rest.head?.any Char.isDigit = false)
    (noWord : (fraction ++ rest).head?.any isWordStart = false) :
    splitNumeral (whole ++ '.' :: (fraction ++ rest)) = (whole ++ '.' :: fraction, rest) := by
  have point : ('.' :: (fraction ++ rest)).head?.any Char.isDigit = false := rfl
  simp only [splitNumeral, takeWhile_run digits point, dropWhile_run digits point,
    takeWhile_run places stops, dropWhile_run places stops]
  rw [if_pos ⟨trivial, by rw [noWord]; exact Bool.false_ne_true⟩]

/-- Digits alone: what follows is no point, or a point that belongs to a word. -/
theorem splitNumeral_whole {whole rest : List Char}
    (digits : ∀ char ∈ whole, char.isDigit = true)
    (stops : rest.head?.any Char.isDigit = false)
    (noPoint : ∀ later, rest = '.' :: later → later.head?.any isWordStart = true) :
    splitNumeral (whole ++ rest) = (whole, rest) := by
  simp only [splitNumeral, takeWhile_run digits stops, dropWhile_run digits stops]
  cases rest with
  | nil => rfl
  | cons point later =>
    dsimp only
    rw [if_neg]
    rintro ⟨rfl, noWord⟩
    exact noWord (noPoint later rfl)

/-- There are no other numerals than these. -/
theorem splitNumeral_cases (chars : List Char) :
    (∃ whole fraction rest, chars = whole ++ '.' :: (fraction ++ rest) ∧
      (∀ char ∈ whole, char.isDigit = true) ∧ (∀ char ∈ fraction, char.isDigit = true) ∧
      rest.head?.any Char.isDigit = false ∧ (fraction ++ rest).head?.any isWordStart = false) ∨
    ∃ whole rest, chars = whole ++ rest ∧ (∀ char ∈ whole, char.isDigit = true) ∧
      rest.head?.any Char.isDigit = false ∧
      ∀ later, rest = '.' :: later → later.head?.any isWordStart = true := by
  have split : chars = chars.takeWhile Char.isDigit ++ chars.dropWhile Char.isDigit :=
    List.takeWhile_append_dropWhile.symm
  have digits := belongs_of_mem_takeWhile Char.isDigit chars
  have stops := head?_dropWhile_any Char.isDigit chars
  generalize chars.takeWhile Char.isDigit = whole at split digits
  generalize chars.dropWhile Char.isDigit = after at split stops
  by_cases isPoint : ∃ later, after = '.' :: later ∧ later.head?.any isWordStart = false
  · obtain ⟨later, rfl, noWord⟩ := isPoint
    refine .inl ⟨whole, later.takeWhile Char.isDigit, later.dropWhile Char.isDigit, ?_, digits,
      belongs_of_mem_takeWhile _ later, head?_dropWhile_any _ later, ?_⟩
    · rwa [List.takeWhile_append_dropWhile]
    · rwa [List.takeWhile_append_dropWhile]
  · refine .inr ⟨whole, after, split, digits, stops, fun later same => ?_⟩
    cases word : later.head?.any isWordStart with
    | true => rfl
    | false => exact absurd ⟨later, same, word⟩ isPoint

/-- No digit stands behind a numeral. -/
theorem head?_splitNumeral (chars : List Char) :
    (splitNumeral chars).2.head?.any Char.isDigit = false := by
  rcases splitNumeral_cases chars with
    ⟨whole, fraction, rest, rfl, digits, places, stops, noWord⟩ |
    ⟨whole, rest, rfl, digits, stops, noPoint⟩
  · rw [splitNumeral_point digits places stops noWord]
    exact stops
  · rw [splitNumeral_whole digits stops noPoint]
    exact stops

/-- What stands behind a numeral may be exchanged. -/
theorem splitNumeral_exchange {chars other : List Char}
    (may : MayReplace other (splitNumeral chars).2) :
    splitNumeral ((splitNumeral chars).1 ++ other) = ((splitNumeral chars).1, other) := by
  have digitStops := may.head? Char.isDigit rfl (head?_splitNumeral chars)
  have lineFeed : isWordStart '\n' = false := by decide
  rcases splitNumeral_cases chars with
    ⟨whole, fraction, rest, rfl, digits, places, stops, noWord⟩ |
    ⟨whole, rest, rfl, digits, stops, noPoint⟩
  · rw [splitNumeral_point digits places stops noWord] at may ⊢
    rw [List.append_assoc, List.cons_append]
    exact splitNumeral_point digits places digitStops (may.head?_append isWordStart lineFeed noWord)
  · rw [splitNumeral_whole digits stops noPoint] at may ⊢
    refine splitNumeral_whole digits digitStops fun later same => ?_
    subst same
    rcases may with ⟨sameHead, sameNext⟩ | ends
    · cases rest with
      | nil => cases sameHead
      | cons point before =>
        cases sameHead
        exact (sameNext rfl).trans (noPoint before rfl)
    · exact absurd (ends '.' rfl) (by decide)

/-! ## The first piece of a text -/

/-- A numeral needs a digit in front or behind its point. -/
theorem startsNumeral_eq_false_iff {char : Char} {chars : List Char} :
    startsNumeral char chars = false ↔
      char.isDigit = false ∧ (char = '.' → chars.head?.any Char.isDigit = false) := by
  simp [startsNumeral]

/-- What is no numeral is none with another text behind. -/
theorem startsNumeral_exchange {char : Char} {front rest other : List Char}
    (may : MayReplace other rest) (not : startsNumeral char (front ++ rest) = false) :
    startsNumeral char (front ++ other) = false := by
  obtain ⟨notDigit, notPoint⟩ := startsNumeral_eq_false_iff.mp not
  exact startsNumeral_eq_false_iff.mpr ⟨notDigit, fun point =>
    may.head?_append Char.isDigit rfl (notPoint point)⟩

/-- The numeral that a text begins with begins with its first character. -/
theorem splitNumeral_fst_of_starts {char : Char} {chars : List Char}
    (starts : startsNumeral char chars = true) :
    ∃ tail, (splitNumeral (char :: chars)).1 = char :: tail := by
  have whole := splitNumeral_append (char :: chars)
  cases same : (splitNumeral (char :: chars)).1 with
  | nil => exact absurd same (splitNumeral_ne_nil starts)
  | cons head tail =>
    rw [same] at whole
    obtain ⟨rfl, _⟩ := List.cons.inj whole
    exact ⟨tail, rfl⟩

/-- A text that begins with a numeral still does with another text behind the numeral. -/
theorem startsNumeral_of_append {char : Char} {chars tail rest other : List Char}
    (starts : startsNumeral char chars = true) (split : tail ++ rest = chars)
    (stops : rest.head?.any Char.isDigit = false) : startsNumeral char (tail ++ other) = true := by
  subst split
  cases tail with
  | nil =>
    simp only [startsNumeral, List.nil_append, stops, Bool.and_false, Bool.or_false] at starts
    simp [startsNumeral, starts]
  | cons => exact starts

/-- What opens no comment opens none with another text behind. -/
theorem opensComment_exchange {char : Char} {front rest other : List Char}
    (may : MayReplace other rest) (not : (front ++ rest).head?.any (opensComment char) = false) :
    (front ++ other).head?.any (opensComment char) = false := by
  refine may.head?_append (opensComment char) ?_ not
  by_cases lineFeed : char = '\n'
  · subst lineFeed
    rfl
  · simp [opensComment, Ne.symm lineFeed]

section First

variable {char : Char} {chars other : List Char}

theorem first_blank (white : Unicode.isWhiteSpace char = true) :
    first char chars = (blank char, chars) := by
  rw [first, if_pos white]

variable (notWhite : Unicode.isWhiteSpace char = false)
include notWhite

theorem first_comment (opens : chars.head?.any (opensComment char) = true) :
    first char chars = firstComment char char (chars.drop 1) := by
  rw [first, if_neg (by simp [notWhite]), if_pos opens]

variable (noComment : chars.head?.any (opensComment char) = false)
include noComment

theorem first_numeral (starts : startsNumeral char chars = true) :
    first char chars =
      (ofNumeral (splitNumeral (char :: chars)).1, (splitNumeral (char :: chars)).2) := by
  rw [first, if_neg (by simp [notWhite]), if_neg (by simp [noComment]), if_pos starts]

variable (noNumeral : startsNumeral char chars = false)
include noNumeral

theorem first_word (starts : isWordStart char = true) :
    first char chars =
      (ofWord (char :: chars.takeWhile isWordPart), chars.dropWhile isWordPart) := by
  rw [first, if_neg (by simp [notWhite]), if_neg (by simp [noComment]),
    if_neg (by simp [noNumeral]), if_pos starts]

variable (noWord : isWordStart char = false)
include noWord

theorem first_enclosed {enclosure : Enclosure} (opens : Enclosure.ofOpener? char = some enclosure) :
    first char chars = firstEnclosed enclosure char chars := by
  rw [first, if_neg (by simp [notWhite]), if_neg (by simp [noComment]),
    if_neg (by simp [noNumeral]), if_neg (by simp [noWord]), opens]

theorem first_symbol (opens : Enclosure.ofOpener? char = none) :
    first char chars = firstSymbol char chars := by
  rw [first, if_neg (by simp [notWhite]), if_neg (by simp [noComment]),
    if_neg (by simp [noNumeral]), if_neg (by simp [noWord]), opens]

end First

theorem firstComment_exchange {opening closing : Char} {later other : List Char}
    (may : MayReplace other (firstComment opening closing later).2) :
    firstComment opening closing ((splitLine later).1 ++ other) =
      ((firstComment opening closing later).1, other) := by
  have inside := belongs_of_mem_takeWhile (!isLineEnd ·) later
  have stops := may.head? (!isLineEnd ·) rfl (head?_dropWhile_any _ later)
  have split : splitLine ((splitLine later).1 ++ other) = ((splitLine later).1, other) := by
    simp only [splitLine, takeWhile_run inside stops, dropWhile_run inside stops]
  simp only [firstComment, split]

/-- The first line of what is never closed is not closed either, and is all of its line. -/
theorem firstEnclosed_line {enclosure : Enclosure} {chars : List Char} (char : Char)
    (never : enclosure.close? chars = none) :
    firstEnclosed enclosure char (splitLine chars).1 =
      ((firstEnclosed enclosure char chars).1, []) := by
  have inside := belongs_of_mem_takeWhile (!isLineEnd ·) chars
  have noCloser : (splitLine chars).2.head?.any (· == enclosure.closer) = false := by
    have stops : (splitLine chars).2.head?.any (!isLineEnd ·) = false := head?_dropWhile_any _ chars
    cases next : (splitLine chars).2.head? with
    | none => rfl
    | some char =>
      have isEnd : isLineEnd char = true := by simpa [next] using stops
      have different : char ≠ enclosure.closer := by
        rintro rfl
        cases enclosure <;> exact absurd isEnd (by decide)
      simpa using different
  have neverInLine : enclosure.close? (splitLine chars).1 = none :=
    Enclosure.close?_eq_none_of_append (by rwa [splitLine_append]) noCloser
  have line : splitLine ((splitLine chars).1 ++ []) = ((splitLine chars).1, []) :=
    Prod.ext (takeWhile_run inside rfl) (dropWhile_run inside rfl)
  rw [List.append_nil] at line
  simp only [firstEnclosed, never, neverInLine, line]

/-- An enclosed text that is closed ends where it is closed, whatever comes then; one that is not
closed ends with its line. -/
theorem firstEnclosed_exchange {enclosure : Enclosure} {char : Char} {chars other : List Char}
    (ends : (firstEnclosed enclosure char chars).1.fault? = none ∨ other = [])
    (may : MayReplace other (firstEnclosed enclosure char chars).2) :
    firstEnclosed enclosure char ((firstEnclosed enclosure char chars).1.spelling.tail ++ other) =
      ((firstEnclosed enclosure char chars).1, other) := by
  cases found : enclosure.close? chars with
  | none =>
    have line := firstEnclosed_line char found
    simp only [firstEnclosed, found] at ends line ⊢
    rcases ends with sound | rfl
    · cases sound
    · simpa [spelling] using line
  | some closed =>
    unfold firstEnclosed at may ⊢
    simp only [found] at may ⊢
    have lineFeed : ('\n' == enclosure.closer) = false := by
      cases enclosure <;> rfl
    have again := Enclosure.close?_exchange found fun doubles =>
      may.head? (· == enclosure.closer) lineFeed (Enclosure.head?_rest_of_doubles found doubles)
    simp [spelling, again]

theorem doubleSymbol?_lineFeed (char : Char) : (doubleSymbol? char '\n').isSome = false := by
  unfold doubleSymbol?
  split
  all_goals first | rfl | next same => exact absurd same (by decide)

/-- What is no sign of two characters does not become one. -/
theorem firstSymbol_exchange {char : Char} {chars other : List Char}
    (may : MayReplace other (firstSymbol char chars).2) :
    firstSymbol char ((firstSymbol char chars).1.spelling.tail ++ other) =
      ((firstSymbol char chars).1, other) := by
  unfold firstSymbol at may ⊢
  cases double : chars.head?.bind (doubleSymbol? char) with
  | some sign =>
    cases chars with
    | nil => cases double
    | cons next later =>
      have double : doubleSymbol? char next = some sign := double
      simp [spelling, double]
  | none =>
    have noDouble (text : List Char) : text.head?.bind (doubleSymbol? char) = none ↔
        text.head?.any (fun next => (doubleSymbol? char next).isSome) = false := by
      cases text <;> simp
    have stillSingle (same : MayReplace other chars) :=
      (noDouble other).mpr (same.head? _ (doubleSymbol?_lineFeed char) ((noDouble chars).mp double))
    simp only [double] at may ⊢
    cases single : singleSymbol? char with
    | none =>
      simp only [single] at may ⊢
      simp [spelling, stillSingle may]
    | some sign =>
      simp only [single] at may ⊢
      simp [spelling, stillSingle may]

/-- **What stands behind a piece may be exchanged**, provided that nothing is wrong with the
piece, **and it may be cut off** even then. -/
theorem first_exchange {char : Char} {chars rest other : List Char} {piece : Piece}
    (read : first char chars = (piece, rest)) (ends : piece.fault? = none ∨ other = [])
    (may : MayReplace other rest) : first char (piece.spelling.tail ++ other) = (piece, other) := by
  obtain ⟨rfl, rfl⟩ : (first char chars).1 = piece ∧ (first char chars).2 = rest := by simp [read]
  have split : (first char chars).1.spelling.tail ++ (first char chars).2 = chars := by
    have all := spelling_first char chars
    cases same : (first char chars).1.spelling with
    | nil => exact absurd same (spelling_first_ne_nil char chars)
    | cons head tail =>
      rw [same] at all
      exact (List.cons.inj all).2
  cases white : Unicode.isWhiteSpace char with
  | true =>
    have isBlank : first char chars = (blank char, chars) := first_blank white
    rw [isBlank]
    exact first_blank white
  | false =>
  cases opens : chars.head?.any (opensComment char) with
  | true =>
    cases chars with
    | nil => cases opens
    | cons next later =>
      obtain rfl := eq_of_opensComment opens
      rw [first_comment white opens] at may ⊢
      rw [← firstComment_exchange may]
      exact first_comment white opens
  | false =>
  have noComment : ((first char chars).1.spelling.tail ++ other).head?.any (opensComment char) =
      false := by
    refine opensComment_exchange may ?_
    rwa [split]
  cases numeral : startsNumeral char chars with
  | true =>
    rw [first_numeral white opens numeral] at may split noComment ⊢
    rw [spelling_ofNumeral] at split noComment ⊢
    obtain ⟨tail, same⟩ := splitNumeral_fst_of_starts numeral
    have stops := head?_splitNumeral (char :: chars)
    have again := splitNumeral_exchange may
    rw [same] at split noComment again ⊢
    have starts : startsNumeral char (tail ++ other) = true :=
      startsNumeral_of_append numeral split stops
    have opensNot : (tail ++ other).head?.any (opensComment char) = false := noComment
    rw [List.tail_cons, first_numeral white opensNot starts]
    rw [List.cons_append] at again
    rw [again]
  | false =>
  have noNumeral : startsNumeral char ((first char chars).1.spelling.tail ++ other) = false := by
    refine startsNumeral_exchange may ?_
    rwa [split]
  cases word : isWordStart char with
  | true =>
    rw [first_word white opens numeral word] at may noComment noNumeral ⊢
    rw [spelling_ofWord, List.tail_cons] at noComment noNumeral ⊢
    have inside := belongs_of_mem_takeWhile isWordPart chars
    have stops := may.head? isWordPart (by decide) (head?_dropWhile_any isWordPart chars)
    rw [first_word white noComment noNumeral word, takeWhile_run inside stops,
      dropWhile_run inside stops]
  | false =>
  cases opener : Enclosure.ofOpener? char with
  | some enclosure =>
    rw [first_enclosed white opens numeral word opener] at ends may noComment noNumeral ⊢
    rw [first_enclosed white noComment noNumeral word opener]
    exact firstEnclosed_exchange ends may
  | none =>
    rw [first_symbol white opens numeral word opener] at may noComment noNumeral ⊢
    rw [first_symbol white noComment noNumeral word opener]
    exact firstSymbol_exchange may

/-! ## Pieces of a part of a text -/

/-- What stands behind some pieces of a text are the pieces of the text behind. -/
theorem all_drop {front behind : List Piece} {chars : List Char}
    (cut : all chars = front ++ behind) : all (behind.flatMap spelling) = behind := by
  induction front generalizing chars with
  | nil =>
    have same : behind.flatMap spelling = chars := by
      rw [← spellings chars, cut, List.nil_append]
    rw [same, cut, List.nil_append]
  | cons piece front ih =>
    cases chars with
    | nil =>
      rw [all] at cut
      cases cut
    | cons char chars =>
      rw [all] at cut
      exact ih (List.cons.inj cut).2

/-- Every piece of a text is the first one of what is left there. -/
theorem eq_first_of_mem_all {piece : Piece} {chars : List Char} (member : piece ∈ all chars) :
    ∃ char later, piece = (first char later).1 := by
  fun_induction all chars with
  | case1 => cases member
  | case2 char chars ih =>
    rcases List.mem_cons.mp member with rfl | member
    · exact ⟨char, chars, rfl⟩
    · exact ih member

/-- The pieces of a text are not empty. -/
theorem spelling_ne_nil_of_mem_all {piece : Piece} {chars : List Char}
    (member : piece ∈ all chars) : piece.spelling ≠ [] := by
  obtain ⟨char, later, rfl⟩ := eq_first_of_mem_all member
  exact spelling_first_ne_nil char later

/-- The first of the pieces of a text, read from its first character on. -/
theorem all_eq_cons {piece : Piece} {pieces : List Piece} {rest : List Char}
    (cut : all (piece.spelling ++ rest) = piece :: pieces) :
    ∃ char, piece.spelling = char :: piece.spelling.tail ∧
      first char (piece.spelling.tail ++ rest) = (piece, rest) ∧ all rest = pieces := by
  have member : piece ∈ all (piece.spelling ++ rest) := by simp [cut]
  have nonempty := spelling_ne_nil_of_mem_all member
  cases spelled : piece.spelling with
  | nil => exact absurd spelled nonempty
  | cons char chars =>
    rw [spelled, List.cons_append, all] at cut
    obtain ⟨isPiece, others⟩ := List.cons.inj cut
    have split := spelling_first char (chars ++ rest)
    rw [isPiece, spelled, List.cons_append] at split
    have behind := List.append_cancel_left (List.cons.inj split).2
    rw [behind] at others
    exact ⟨char, rfl, Prod.ext isPiece behind, others⟩

/-- **A piece is the only one of its own text**, even if something is wrong with it. -/
theorem all_spelling {piece : Piece} {chars : List Char} (member : piece ∈ all chars) :
    all piece.spelling = [piece] := by
  obtain ⟨char, later, same⟩ := eq_first_of_mem_all member
  have read : first char later = (piece, (first char later).2) := Prod.ext same.symm rfl
  have alone : first char (piece.spelling.tail ++ []) = (piece, []) :=
    first_exchange read (.inr rfl) (.nil _)
  have split := spelling_first char later
  rw [← same] at split
  cases spelled : piece.spelling with
  | nil => exact absurd spelled (spelling_ne_nil_of_mem_all member)
  | cons head tail =>
    rw [spelled, List.cons_append] at split
    obtain ⟨rfl, _⟩ := List.cons.inj split
    rw [spelled, List.tail_cons, List.append_nil] at alone
    rw [all, alone, all]

/-- **Pieces stay what they are when the text behind them is exchanged.** -/
theorem all_exchange {front behind : List Piece} {rest other : List Char}
    (sound : ∀ piece ∈ front, piece.fault? = none) (may : MayReplace other rest)
    (point : ∀ earlier last, front = earlier ++ [last] → last.spelling = ['.'] →
      other.head?.any isWordStart = rest.head?.any isWordStart)
    (cut : all (front.flatMap spelling ++ rest) = front ++ behind) :
    all (front.flatMap spelling ++ other) = front ++ all other := by
  induction front with
  | nil => rfl
  | cons piece front ih =>
    rw [List.flatMap_cons, List.append_assoc] at cut ⊢
    obtain ⟨char, spelled, isFirst, others⟩ := all_eq_cons cut
    -- What is left of the pieces is a point only if it is a single piece.
    have single : front.flatMap spelling = ['.'] →
        other.head?.any isWordStart = rest.head?.any isWordStart := by
      intro isPoint
      cases front with
      | nil => cases isPoint
      | cons last more =>
        obtain ⟨char, spelled, _, others⟩ := all_eq_cons (by simpa using others)
        rw [List.flatMap_cons, spelled, List.cons_append] at isPoint
        obtain ⟨rfl, empty⟩ := List.cons.inj isPoint
        obtain ⟨noMore, empty⟩ := List.append_eq_nil_iff.mp empty
        cases more with
        | nil => exact point [piece] last rfl (by rw [spelled, noMore])
        | cons next more =>
          rw [List.flatMap_cons, List.append_assoc] at others
          obtain ⟨_, spelled, _, _⟩ := all_eq_cons others
          rw [List.flatMap_cons, spelled] at empty
          cases empty
    have mayBehind := may.append (front.flatMap spelling) single
    have again := first_exchange isFirst (.inl (sound piece (List.mem_cons_self ..))) mayBehind
    rw [spelled, List.cons_append, all, again]
    have later := ih (fun piece member => sound piece (List.mem_cons_of_mem _ member))
      (fun earlier last same => point (piece :: earlier) last (by rw [same]; rfl)) others
    rw [later]
    rfl

/-- **Pieces that follow each other in a text are the pieces of their part of the text.**  A point
at the end is left out, since it could be taken for the end of a numeral. -/
theorem all_cut {front behind : List Piece} {chars : List Char}
    (sound : ∀ piece ∈ front, piece.fault? = none)
    (noPoint : ∀ earlier last, front = earlier ++ [last] → last.spelling ≠ ['.'])
    (cut : all chars = front ++ behind) : all (front.flatMap spelling) = front := by
  have same : chars = front.flatMap spelling ++ behind.flatMap spelling := by
    rw [← List.flatMap_append, ← cut, spellings]
  rw [same] at cut
  have whole := all_exchange sound (.nil (behind.flatMap spelling))
    (fun earlier last same isPoint => absurd isPoint (noPoint earlier last same)) cut
  simpa [all] using whole

/-- **The pieces of a text stay the same when further lines are added.** -/
theorem all_append {first second : List Char} (sound : ∀ piece ∈ all first, piece.fault? = none)
    (lineFeed : ∀ char ∈ second.head?, char = '\n') :
    all (first ++ second) = all first ++ all second := by
  have lineEnds : MayReplace second [] := .inr lineFeed
  have noWord : second.head?.any isWordStart = false := lineEnds.head? isWordStart (by decide) rfl
  have cut : all ((all first).flatMap spelling ++ []) = all first ++ [] := by simp [spellings]
  have whole := all_exchange sound lineEnds (fun _ _ _ _ => noWord) cut
  rwa [spellings] at whole

end Piece

end DaxScript
