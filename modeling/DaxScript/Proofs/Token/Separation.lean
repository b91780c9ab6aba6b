import DaxScript.Proofs.Token.Lookahead
import DaxScript.Proofs.Token.Placement

/-!
# Pieces in front of separators

A piece fits in front of a text when it is the first piece of both together (`Piece.Fits`), and
where every piece fits in front of what comes behind it, cutting the text gives back the pieces it
was put together from (`Piece.all_text_append`).

Whether a piece fits is decided by the next character.  White space and the signs that enclose and
separate go on with nothing: every numeral, word, sign and enclosed text fits in front of them.
-/

set_option autoImplicit false

namespace DaxScript

/-! ## Separators -/

/-- Whether a character ends any token in front of it that is no comment. -/
def separates (char : Char) : Bool :=
  Unicode.isWhiteSpace char || ['(', ')', '{', '}', '[', ',', ';'].contains char

/-- The code points of the characters that separate. -/
def separatorCodes : List Nat :=
  [0x9, 0xA, 0xB, 0xC, 0xD, 0x20, 0x28, 0x29, 0x2C, 0x3B, 0x5B, 0x7B, 0x7D, 0x85, 0xA0, 0x1680,
    0x2000, 0x2001, 0x2002, 0x2003, 0x2004, 0x2005, 0x2006, 0x2007, 0x2008, 0x2009, 0x200A,
    0x2028, 0x2029, 0x202F, 0x205F, 0x3000]

theorem toNat_mem_separatorCodes {char : Char} (isSeparator : separates char = true) :
    char.toNat ∈ separatorCodes := by
  rw [separates, Bool.or_eq_true] at isSeparator
  rcases isSeparator with white | sign
  · simp only [Unicode.isWhiteSpace, Unicode.whiteSpaceRanges, Unicode.inRanges_iff, List.mem_cons,
      List.not_mem_nil, or_false, separatorCodes] at white ⊢
    obtain ⟨range, isRange, bounds⟩ := white
    rcases isRange with rfl | rfl | rfl | rfl | rfl | rfl | rfl | rfl | rfl | rfl <;>
      · dsimp only at bounds
        omega
  · simp only [List.contains_eq_mem, List.mem_cons, List.not_mem_nil, or_false,
      decide_eq_true_eq] at sign
    rcases sign with rfl | rfl | rfl | rfl | rfl | rfl | rfl <;> decide

theorem isWordPart_of_separates {char : Char} (isSeparator : separates char = true) :
    isWordPart char = false := by
  have none : ∀ code ∈ separatorCodes, isWordPart (Char.ofNat code) = false := by decide +kernel
  have found := none char.toNat (toNat_mem_separatorCodes isSeparator)
  rwa [Char.ofNat_toNat] at found

theorem separates_of_isWhiteSpace {char : Char} (white : Unicode.isWhiteSpace char = true) :
    separates char = true := by
  rw [separates, white, Bool.true_or]

/-- A text that is empty or begins with a separator. -/
def Separated (text : List Char) : Prop :=
  ∀ char ∈ text.head?, separates char = true

namespace Separated

variable {text : List Char} (separated : Separated text)
include separated

/-- What no separator is, a separated text does not begin with. -/
theorem head?_any {belongs : Char → Bool}
    (none : ∀ char, separates char = true → belongs char = false) :
    text.head?.any belongs = false := by
  cases text with
  | nil => rfl
  | cons char text => exact none char (separated char rfl)

theorem head?_isWordPart : text.head?.any isWordPart = false :=
  separated.head?_any fun _ => isWordPart_of_separates

theorem head?_isWordStart : text.head?.any isWordStart = false := by
  refine separated.head?_any fun char isSeparator => Bool.eq_false_iff.mpr fun starts => ?_
  have part : isWordPart char = true := isWordPart_of_isWordStart starts
  exact Bool.eq_false_iff.mp (isWordPart_of_separates isSeparator) part

/-- A character that is no separator is none of a separated text's first. -/
theorem head?_beq (char : Char) (noSeparator : separates char = false) :
    text.head?.any (· == char) = false := by
  refine separated.head?_any fun first isSeparator => beq_eq_false_iff_ne.mpr ?_
  rintro rfl
  exact absurd isSeparator (by simp [noSeparator])

end Separated

theorem isWhiteSpace_of_isWordPart {char : Char} (part : isWordPart char = true) :
    Unicode.isWhiteSpace char = false := by
  refine Bool.eq_false_iff.mpr fun white => ?_
  exact Bool.eq_false_iff.mp (isWordPart_of_separates (separates_of_isWhiteSpace white)) part

theorem isWordPart_of_isDigit {char : Char} (digit : char.isDigit = true) :
    isWordPart char = true := by
  have range : 48 ≤ char.toNat ∧ char.toNat ≤ 57 := Char.isDigit_iff_toNat.mp digit
  have ascii : char.toNat < 128 := by omega
  simp [isWordPart, Unicode.isNumeric, ascii, digit]

/-- A separated text begins with no digit. -/
theorem Separated.head?_isDigit {text : List Char} (separated : Separated text) :
    text.head?.any Char.isDigit = false :=
  separated.head?_any fun _ isSeparator => Bool.eq_false_iff.mpr fun digit =>
    Bool.eq_false_iff.mp (isWordPart_of_separates isSeparator) (isWordPart_of_isDigit digit)

/-- Nothing but a hyphen and a slash opens comments. -/
theorem head?_opensComment_of_ne {char : Char} (noSign : char ≠ '-' ∧ char ≠ '/')
    (chars : List Char) : chars.head?.any (opensComment char) = false := by
  cases chars with
  | nil => rfl
  | cons => simp [opensComment, noSign.1, noSign.2]

theorem head?_opensComment_of_isWordPart {char : Char} (part : isWordPart char = true)
    (chars : List Char) : chars.head?.any (opensComment char) = false := by
  refine head?_opensComment_of_ne ⟨?_, ?_⟩ chars <;>
    · rintro rfl
      exact absurd part (by decide)

/-! ## Keywords and signs in any letter case -/

theorem isUpper_iff_toNat {char : Char} :
    char.isUpper = true ↔ 65 ≤ char.toNat ∧ char.toNat ≤ 90 := by
  refine decide_eq_true_iff.trans ?_
  rw [ge_iff_le, UInt32.le_iff_toNat_le, UInt32.le_iff_toNat_le]
  rfl

theorem isUpper_toUpper {char : Char} (low : 97 ≤ char.toNat) (high : char.toNat ≤ 122) :
    char.toUpper.isUpper = true := by
  have all : ∀ code ∈ List.range' 97 26, (Char.ofNat code).toUpper.isUpper = true := by
    decide
  have found := all char.toNat (by rw [List.mem_range'_1]; omega)
  rwa [Char.ofNat_toNat] at found

/-- A character changes in upper case only if it becomes an English letter. -/
theorem toUpper_eq_or (char : Char) :
    char.toUpper = char ∨ (97 ≤ char.toNat ∧ char.toNat ≤ 122) ∧ char.toUpper.isUpper = true := by
  by_cases small : 97 ≤ char.toNat ∧ char.toNat ≤ 122
  · exact .inr ⟨small, isUpper_toUpper small.1 small.2⟩
  · refine .inl (dif_neg fun letter => small ?_)
    exact ⟨UInt32.le_iff_toNat_le.mp letter.1, UInt32.le_iff_toNat_le.mp letter.2⟩

/-- What is an English letter in upper case begins words. -/
theorem isWordStart_of_toUpper {char : Char} (letter : char.toUpper.isUpper = true) :
    isWordStart char = true := by
  have range : (65 ≤ char.toNat ∧ char.toNat ≤ 90) ∨ (97 ≤ char.toNat ∧ char.toNat ≤ 122) := by
    rcases toUpper_eq_or char with same | small
    · rw [same] at letter
      exact .inl (isUpper_iff_toNat.mp letter)
    · exact .inr small.1
  have ascii : char.toNat < 128 := by omega
  simp [isWordStart, Unicode.isAlphabetic, ascii, Unicode.inRanges, Unicode.englishLetterRanges]
  omega

theorem Keyword.name_letters (keyword : Keyword) :
    keyword.name.toList.all (·.toUpper.isUpper) = true := by
  cases keyword <;> rfl

/-- A keyword may be written in any letter case. -/
theorem Keyword.ofWord?_of_same {keyword : Keyword} {word : String}
    (same : sameIgnoringCase keyword.name word = true) : ofWord? word = some keyword := by
  rw [← ofWord?_name keyword, ofWord?, ofWord?]
  congr 1
  funext other
  rw [sameIgnoringCase, sameIgnoringCase, sameIgnoringCase_iff.mp same]

/-- A word of letters consists of letters in any letter case. -/
theorem isUpper_toUpper_of_same {word : String}
    (letters : word.toList.all (·.toUpper.isUpper) = true) {spelling : List Char}
    (same : sameIgnoringCase word (String.ofList spelling) = true) :
    ∀ char ∈ spelling, char.toUpper.isUpper = true := by
  have upper := sameIgnoringCase_iff.mp same
  rw [String.toList_ofList] at upper
  intro char member
  have isUpper : char.toUpper ∈ word.toList.map Char.toUpper := by
    rw [upper]
    exact List.mem_map_of_mem member
  obtain ⟨letter, isLetter, sameUpper⟩ := List.mem_map.mp isUpper
  rw [← sameUpper]
  exact List.all_eq_true.mp letters letter isLetter

/-- However a keyword is written, it consists of letters. -/
theorem Keyword.isWordStart_of_same {keyword : Keyword} {spelling : List Char}
    (same : sameIgnoringCase keyword.name (String.ofList spelling) = true) :
    ∀ char ∈ spelling, isWordStart char = true := fun char member =>
  isWordStart_of_toUpper (isUpper_toUpper_of_same keyword.name_letters same char member)

theorem Keyword.ne_nil_of_same {keyword : Keyword} {spelling : List Char}
    (same : sameIgnoringCase keyword.name (String.ofList spelling) = true) : spelling ≠ [] := by
  rintro rfl
  have none : keyword.name.toList = [] := List.map_eq_nil_iff.mp (sameIgnoringCase_iff.mp same)
  cases keyword <;> cases none

theorem Symbol.noLetters (sign : Symbol) :
    sign.spelling.toList.all (!·.isUpper) = true := by
  cases sign <;> rfl

theorem Symbol.map_toUpper (sign : Symbol) :
    sign.spelling.toList.map Char.toUpper = sign.spelling.toList := by
  cases sign <;> rfl

/-- A sign has no letter case. -/
theorem Symbol.eq_of_same {sign : Symbol} {chars : List Char}
    (same : sameIgnoringCase sign.spelling (String.ofList chars) = true) :
    chars = sign.spelling.toList := by
  have noLetters := List.all_eq_true.mp sign.noLetters
  have upper := sameIgnoringCase_iff.mp same
  rw [String.toList_ofList, map_toUpper] at upper
  rw [upper] at noLetters ⊢
  have own : ∀ char ∈ chars, char = char.toUpper := by
    intro char member
    rcases toUpper_eq_or char with same | ⟨_, letter⟩
    · exact same.symm
    · have noLetter := noLetters _ (List.mem_map_of_mem member)
      simp [letter] at noLetter
  rw [← List.map_congr_left own, List.map_id']

namespace Piece

/-! ## Pieces that fit -/

/-- A piece that is the first one of itself and the text behind it. -/
def Fits (piece : Piece) (rest : List Char) : Prop :=
  ∃ char tail, piece.spelling = char :: tail ∧ first char (tail ++ rest) = (piece, rest)

theorem Fits.all_append {piece : Piece} {rest : List Char} (fits : piece.Fits rest) :
    all (piece.spelling ++ rest) = piece :: all rest := by
  obtain ⟨char, tail, spelled, isFirst⟩ := fits
  rw [spelled, List.cons_append, all, isFirst]

/-- Pieces each of which fits in front of those behind it and a text. -/
def FitTogether (rest : List Char) : List Piece → Prop
  | [] => True
  | piece :: pieces => piece.Fits (text pieces ++ rest) ∧ FitTogether rest pieces

/-- **Pieces that fit together are the pieces of their text.** -/
theorem all_text_append {pieces : List Piece} {rest : List Char}
    (together : FitTogether rest pieces) : all (text pieces ++ rest) = pieces ++ all rest := by
  induction pieces with
  | nil => rfl
  | cons piece pieces ih =>
    rw [text_cons, List.append_assoc, together.1.all_append, ih together.2, List.cons_append]

theorem all_text {pieces : List Piece} (together : FitTogether [] pieces) :
    all (text pieces) = pieces := by
  have whole := all_text_append together
  rwa [List.append_nil, all, List.append_nil] at whole

theorem FitTogether.append {rest : List Char} {front behind : List Piece}
    (inFront : FitTogether (text behind ++ rest) front) (isBehind : FitTogether rest behind) :
    FitTogether rest (front ++ behind) := by
  induction front with
  | nil => exact isBehind
  | cons piece front ih =>
    rw [List.cons_append, FitTogether, text_append, List.append_assoc]
    exact ⟨inFront.1, ih inFront.2⟩

/-! ## Which pieces fit -/

theorem fits_blank {char : Char} (white : Unicode.isWhiteSpace char = true) (rest : List Char) :
    (blank char).Fits rest :=
  ⟨char, [], rfl, first_blank white⟩

/-- What begins like a word is a word. -/
theorem first_of_isWordStart {char : Char} (starts : isWordStart char = true) (chars : List Char) :
    first char chars =
      (ofWord (char :: chars.takeWhile isWordPart), chars.dropWhile isWordPart) := by
  have part : isWordPart char = true := isWordPart_of_isWordStart starts
  refine first_word (isWhiteSpace_of_isWordPart part) (head?_opensComment_of_isWordPart part _) ?_
    starts
  refine startsNumeral_eq_false_iff.mpr ⟨Bool.eq_false_iff.mpr fun digit => ?_, ?_⟩
  · exact Bool.eq_false_iff.mp (isWordStart_eq_false_of_isDigit digit) starts
  · rintro rfl
    exact absurd starts (by decide)

/-- Words fit in front of separators. -/
theorem fits_word {char : Char} {tail rest : List Char} (starts : isWordStart char = true)
    (goesOn : ∀ part ∈ tail, isWordPart part = true) (separated : Separated rest) :
    (ofWord (char :: tail)).Fits rest := by
  refine ⟨char, tail, spelling_ofWord _, ?_⟩
  rw [first_of_isWordStart starts, takeWhile_run goesOn separated.head?_isWordPart,
    dropWhile_run goesOn separated.head?_isWordPart]

/-- So do keywords in any letter case. -/
theorem fits_keyword {keyword : Keyword} {spelling rest : List Char}
    (same : sameIgnoringCase keyword.name (String.ofList spelling) = true)
    (separated : Separated rest) : (token (.keyword keyword) spelling none).Fits rest := by
  have letters := Keyword.isWordStart_of_same same
  have isPiece : ofWord spelling = token (.keyword keyword) spelling none := by
    simp only [ofWord, Keyword.ofWord?_of_same same]
  cases spelling with
  | nil => exact absurd rfl (Keyword.ne_nil_of_same same)
  | cons char tail =>
    rw [← isPiece]
    exact fits_word (letters char (.head _))
      (fun part member => isWordPart_of_isWordStart (letters part (.tail _ member))) separated

/-- What may be a numeral: digits, or digits with a point among them. -/
theorem numeral_cases {spelling : List Char} {value : Binary64}
    (known : Numeral.value? spelling = some value) :
    (spelling ≠ [] ∧ ∀ char ∈ spelling, char.isDigit = true) ∨
      ∃ whole fraction, spelling = whole ++ '.' :: fraction ∧
        (∀ char ∈ whole, char.isDigit = true) ∧ (∀ char ∈ fraction, char.isDigit = true) ∧
        ¬(whole = [] ∧ fraction = []) := by
  obtain ⟨ratio, found, -⟩ := Option.map_eq_some_iff.mp known
  have split : spelling = spelling.takeWhile Char.isDigit ++ spelling.dropWhile Char.isDigit :=
    List.takeWhile_append_dropWhile.symm
  have digits := belongs_of_mem_takeWhile Char.isDigit spelling
  unfold Numeral.ratio? at found
  dsimp only at found
  generalize spelling.takeWhile Char.isDigit = whole at split digits found
  generalize spelling.dropWhile Char.isDigit = after at split found
  subst split
  cases after with
  | nil =>
    cases whole with
    | nil => cases found
    | cons digit digits' =>
      rw [List.append_nil]
      exact .inl ⟨List.cons_ne_nil _ _, digits⟩
  | cons point fraction =>
    dsimp only at found
    split at found
    · next isNumeral =>
      obtain ⟨rfl, places, some⟩ := isNumeral
      refine .inr ⟨whole, fraction, rfl, digits, List.all_eq_true.mp places, ?_⟩
      simpa using some
    · cases found

/-- Numerals fit in front of separators. -/
theorem fits_numeral {spelling rest : List Char} {value : Binary64}
    (known : Numeral.value? spelling = some value) (separated : Separated rest) :
    (token (.number value) spelling none).Fits rest := by
  have isPiece : ofNumeral spelling = token (.number value) spelling none := by
    rw [ofNumeral, known]
  have noDigit : rest.head?.any Char.isDigit = false := separated.head?_isDigit
  -- Whatever the numeral begins with, it is cut off as a numeral.
  have fits {char : Char} {tail : List Char} (spelled : spelling = char :: tail)
      (part : isWordPart char = true) (starts : startsNumeral char (tail ++ rest) = true)
      (split : splitNumeral (spelling ++ rest) = (spelling, rest)) :
      (token (.number value) spelling none).Fits rest := by
    refine ⟨char, tail, spelled, ?_⟩
    rw [first_numeral (isWhiteSpace_of_isWordPart part) (head?_opensComment_of_isWordPart part _)
      starts, ← List.cons_append, ← spelled, split, isPiece]
  rcases numeral_cases known with ⟨some, digits⟩ | ⟨whole, fraction, rfl, digits, places, some⟩
  · obtain ⟨char, tail, rfl⟩ := List.exists_cons_of_ne_nil some
    have digit : char.isDigit = true := digits char (.head _)
    refine fits rfl (isWordPart_of_isDigit digit) (by simp [startsNumeral, digit]) ?_
    refine splitNumeral_whole digits noDigit fun later same => ?_
    have noPoint := separated.head?_beq '.' (by decide)
    simp [same] at noPoint
  · have noWord : (fraction ++ rest).head?.any isWordStart = false := by
      cases fraction with
      | nil => exact separated.head?_isWordStart
      | cons char fraction => exact isWordStart_eq_false_of_isDigit (places char (.head _))
    have split := splitNumeral_point digits places noDigit noWord
    rw [← List.cons_append, ← List.append_assoc] at split
    cases whole with
    | cons char whole =>
      have digit : char.isDigit = true := digits char (.head _)
      exact fits rfl (isWordPart_of_isDigit digit) (by simp [startsNumeral, digit]) split
    | nil =>
      obtain ⟨char, tail, rfl⟩ := List.exists_cons_of_ne_nil fun none => some ⟨rfl, none⟩
      have digit : char.isDigit = true := places char (.head _)
      exact fits rfl (by decide) (by simp [startsNumeral, digit]) split

/-- What begins with an opening character is an enclosed text. -/
theorem first_opener (enclosure : Enclosure) (chars : List Char) :
    first enclosure.opener chars = firstEnclosed enclosure enclosure.opener chars := by
  refine first_enclosed ?_ ?_ ?_ ?_ ?_
  · cases enclosure <;> decide
  · exact head?_opensComment_of_ne (by cases enclosure <;> decide) chars
  · exact startsNumeral_eq_false_iff.mpr ⟨by cases enclosure <;> rfl,
      fun point => absurd point (by cases enclosure <;> decide)⟩
  · cases enclosure <;> decide
  · cases enclosure <;> rfl

/-- How the token of a sign is written. -/
def ofSymbol (sign : Symbol) : Piece :=
  token (.symbol sign) sign.spelling.toList none

/-- Whether a character begins no other token than a sign. -/
def beginsSign (char : Char) : Bool :=
  !Unicode.isWhiteSpace char && !char.isDigit && !isWordStart char &&
    (Enclosure.ofOpener? char).isNone

theorem first_of_beginsSign {char : Char} {chars : List Char} (begins : beginsSign char = true)
    (noComment : chars.head?.any (opensComment char) = false)
    (noPoint : char = '.' → chars.head?.any Char.isDigit = false) :
    first char chars = firstSymbol char chars := by
  simp only [beginsSign, Bool.and_eq_true, Bool.not_eq_true', Option.isNone_iff_eq_none] at begins
  obtain ⟨⟨⟨notWhite, noDigit⟩, noWord⟩, noOpener⟩ := begins
  exact first_symbol notWhite noComment (startsNumeral_eq_false_iff.mpr ⟨noDigit, noPoint⟩) noWord
    noOpener

/-- Signs of one character fit in front of what makes no other token of them. -/
theorem fits_single {char : Char} {sign : Symbol} {rest : List Char}
    (begins : beginsSign char = true) (written : sign.spelling.toList = [char])
    (single : singleSymbol? char = some sign)
    (noComment : rest.head?.any (opensComment char) = false)
    (noPoint : char = '.' → rest.head?.any Char.isDigit = false)
    (noDouble : rest.head?.bind (doubleSymbol? char) = none) : (ofSymbol sign).Fits rest := by
  refine ⟨char, [], written, ?_⟩
  rw [List.nil_append, first_of_beginsSign begins noComment noPoint, firstSymbol, noDouble]
  simp only [single, ofSymbol, written]

/-- Signs of two characters fit everywhere. -/
theorem fits_double {char second : Char} {sign : Symbol} (begins : beginsSign char = true)
    (written : sign.spelling.toList = [char, second])
    (double : doubleSymbol? char second = some sign)
    (noComment : opensComment char second = false) (noPoint : char ≠ '.') (rest : List Char) :
    (ofSymbol sign).Fits rest := by
  have noComment : (second :: rest).head?.any (opensComment char) = false := noComment
  refine ⟨char, [second], written, ?_⟩
  rw [List.cons_append, List.nil_append,
    first_of_beginsSign begins noComment fun isPoint => absurd isPoint noPoint, firstSymbol]
  simp [double, ofSymbol, written]

/-- All signs are of one character or of two. -/
theorem spelling_cases (sign : Symbol) :
    (∃ char, sign.spelling.toList = [char] ∧ beginsSign char = true ∧
      singleSymbol? char = some sign) ∨
    ∃ char second, sign.spelling.toList = [char, second] ∧ beginsSign char = true ∧
      doubleSymbol? char second = some sign ∧ opensComment char second = false ∧ char ≠ '.' := by
  cases sign with
  | notEqual => exact .inr ⟨'<', '>', rfl, by decide, rfl, rfl, by decide⟩
  | lessEqual => exact .inr ⟨'<', '=', rfl, by decide, rfl, rfl, by decide⟩
  | greaterEqual => exact .inr ⟨'>', '=', rfl, by decide, rfl, rfl, by decide⟩
  | doubleAmpersand => exact .inr ⟨'&', '&', rfl, by decide, rfl, rfl, by decide⟩
  | doubleBar => exact .inr ⟨'|', '|', rfl, by decide, rfl, rfl, by decide⟩
  | leftParen => exact .inl ⟨'(', rfl, by decide, rfl⟩
  | rightParen => exact .inl ⟨')', rfl, by decide, rfl⟩
  | leftBrace => exact .inl ⟨'{', rfl, by decide, rfl⟩
  | rightBrace => exact .inl ⟨'}', rfl, by decide, rfl⟩
  | comma => exact .inl ⟨',', rfl, by decide, rfl⟩
  | semicolon => exact .inl ⟨';', rfl, by decide, rfl⟩
  | dot => exact .inl ⟨'.', rfl, by decide, rfl⟩
  | plus => exact .inl ⟨'+', rfl, by decide, rfl⟩
  | minus => exact .inl ⟨'-', rfl, by decide, rfl⟩
  | star => exact .inl ⟨'*', rfl, by decide, rfl⟩
  | slash => exact .inl ⟨'/', rfl, by decide, rfl⟩
  | ampersand => exact .inl ⟨'&', rfl, by decide, rfl⟩
  | equal => exact .inl ⟨'=', rfl, by decide, rfl⟩
  | less => exact .inl ⟨'<', rfl, by decide, rfl⟩
  | greater => exact .inl ⟨'>', rfl, by decide, rfl⟩

theorem doubleSymbol?_of_separates {char next : Char} (isSeparator : separates next = true) :
    doubleSymbol? char next = none := by
  unfold doubleSymbol?
  split
  all_goals first | rfl | exact absurd isSeparator (by decide)

/-- All signs fit in front of separators. -/
theorem fits_symbol (sign : Symbol) {rest : List Char} (separated : Separated rest) :
    (ofSymbol sign).Fits rest := by
  have noDigit : rest.head?.any Char.isDigit = false := separated.head?_isDigit
  have noDouble (char : Char) : rest.head?.bind (doubleSymbol? char) = none := by
    cases rest with
    | nil => rfl
    | cons next rest => exact doubleSymbol?_of_separates (separated next rfl)
  have noComment (char : Char) : rest.head?.any (opensComment char) = false := by
    refine separated.head?_any fun next isSeparator => Bool.eq_false_iff.mpr fun opens => ?_
    obtain rfl := eq_of_opensComment opens
    simp only [opensComment, beq_self_eq_true, Bool.and_true, Bool.or_eq_true, beq_iff_eq] at opens
    rcases opens with rfl | rfl <;> exact absurd isSeparator (by decide)
  rcases spelling_cases sign with
    ⟨char, written, begins, single⟩ | ⟨char, second, written, begins, double, opensNot, noPoint⟩
  · exact fits_single begins written single (noComment char) (fun _ => noDigit) (noDouble char)
  · exact fits_double begins written double opensNot noPoint rest

end Piece

end DaxScript
