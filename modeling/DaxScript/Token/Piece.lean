import DaxScript.Number.Numeral
import DaxScript.Text.CharLiteral
import DaxScript.Token.Comment
import DaxScript.Token.Enclosure
import DaxScript.Token.Word
import DaxScript.Unicode.WhiteSpace

/-!
# Cutting a source into pieces

Every source is a sequence of pieces: tokens, blanks and characters that belong to nothing.  A
piece is found by looking at the characters from its start on, so where it starts is all that
matters (`Piece.first`), and the pieces put together again give the source (`Piece.spellings`).

A text that is opened and never closed does not swallow the rest of the source.  It ends with its
line, and what follows is cut as usual.
-/

set_option autoImplicit false

namespace DaxScript

/-- What can be wrong with a piece. -/
inductive LexicalFault where
  /-- The character begins no token. -/
  | unexpectedCharacter (char : Char)
  /-- The enclosed text is never closed. -/
  | unterminated (enclosure : Enclosure)
  /-- The text is no numeral. -/
  | invalidNumber (spelling : String)
  deriving DecidableEq

/-- The message about a fault. -/
def LexicalFault.message : LexicalFault → String
  | unexpectedCharacter char => "unexpected character " ++ CharLiteral.render char
  | unterminated enclosure => "unterminated " ++ enclosure.noun
  | invalidNumber spelling => "invalid number \"" ++ spelling ++ "\""

/-- A piece of a source. -/
inductive Piece where
  /-- A character of white space. -/
  | blank (char : Char)
  /-- A character that begins no token. -/
  | stray (char : Char)
  /-- A token, possibly with a fault. -/
  | token (kind : TokenKind) (spelling : List Char) (fault : Option LexicalFault)
  deriving DecidableEq

namespace Piece

/-- The characters of a piece. -/
def spelling : Piece → List Char
  | blank char => [char]
  | stray char => [char]
  | token _ spelling _ => spelling

/-- What is wrong with a piece. -/
def fault? : Piece → Option LexicalFault
  | blank _ => none
  | stray char => some (.unexpectedCharacter char)
  | token _ _ fault => fault

/-! ## Single kinds of pieces -/

/-- Whether a character ends a line. -/
def isLineEnd (char : Char) : Bool :=
  char == '\n' || char == '\r'

/-- Cuts a text at the first end of a line, which stays with the rest. -/
def splitLine (chars : List Char) : List Char × List Char :=
  (chars.takeWhile (!isLineEnd ·), chars.dropWhile (!isLineEnd ·))

/-- Whether a text begins with a numeral: a digit, or a point and a digit. -/
def startsNumeral (char : Char) (chars : List Char) : Bool :=
  char.isDigit || (char == '.' && chars.head?.any Char.isDigit)

/-- Cuts a numeral off a text: digits, and a point with the digits after it.  A point that a word
follows belongs to no number. -/
def splitNumeral (chars : List Char) : List Char × List Char :=
  let whole := chars.takeWhile Char.isDigit
  let after := chars.dropWhile Char.isDigit
  match after with
  | point :: later =>
    if point = '.' ∧ ¬later.head?.any isWordStart then
      (whole ++ point :: later.takeWhile Char.isDigit, later.dropWhile Char.isDigit)
    else (whole, after)
  | [] => (whole, [])

/-- The token that a numeral makes. -/
def ofNumeral (spelling : List Char) : Piece :=
  match Numeral.value? spelling with
  | some value => token (.number value) spelling none
  | none => token (.number (.finite 0 0)) spelling (some (.invalidNumber (String.ofList spelling)))

/-- The token that a word makes. -/
def ofWord (spelling : List Char) : Piece :=
  let word := String.ofList spelling
  match Keyword.ofWord? word with
  | some keyword => token (.keyword keyword) spelling none
  | none => token (.identifier word) spelling none

/-- The sign that two characters make. -/
def doubleSymbol? (first second : Char) : Option Symbol :=
  match first, second with
  | '<', '=' => some .lessEqual
  | '<', '>' => some .notEqual
  | '>', '=' => some .greaterEqual
  | '&', '&' => some .doubleAmpersand
  | '|', '|' => some .doubleBar
  | _, _ => none

/-- The sign that one character makes. -/
def singleSymbol? : Char → Option Symbol
  | '(' => some .leftParen
  | ')' => some .rightParen
  | '{' => some .leftBrace
  | '}' => some .rightBrace
  | ',' => some .comma
  | ';' => some .semicolon
  | '.' => some .dot
  | '+' => some .plus
  | '-' => some .minus
  | '*' => some .star
  | '/' => some .slash
  | '&' => some .ampersand
  | '=' => some .equal
  | '<' => some .less
  | '>' => some .greater
  | _ => none

/-! ## The first piece of a text -/

/-- A comment, whose two opening characters are not part of what it says. -/
def firstComment (first second : Char) (later : List Char) : Piece × List Char :=
  let line := splitLine later
  (token (.comment (String.ofList line.1)) (first :: second :: line.1) none, line.2)

/-- An enclosed text, or the rest of the line when it is not closed. -/
def firstEnclosed (enclosure : Enclosure) (char : Char) (chars : List Char) :
    Piece × List Char :=
  match enclosure.close? chars with
  | some closed =>
    (token (enclosure.kind (String.ofList closed.content)) (char :: closed.spelling) none,
      closed.rest)
  | none =>
    let line := splitLine chars
    (token (enclosure.kind (String.ofList line.1)) (char :: line.1)
      (some (.unterminated enclosure)), line.2)

/-- A sign, of two characters if possible, or a stray character. -/
def firstSymbol (char : Char) (chars : List Char) : Piece × List Char :=
  match chars.head?.bind (doubleSymbol? char) with
  | some sign => (token (.symbol sign) (char :: chars.take 1) none, chars.drop 1)
  | none =>
    match singleSymbol? char with
    | some sign => (token (.symbol sign) [char] none, chars)
    | none => (stray char, chars)

/-- The first piece of a non-empty text and the text after it. -/
def first (char : Char) (chars : List Char) : Piece × List Char :=
  if Unicode.isWhiteSpace char then (blank char, chars)
  else if chars.head?.any (opensComment char) then
    firstComment char char (chars.drop 1)
  else if startsNumeral char chars then
    let split := splitNumeral (char :: chars)
    (ofNumeral split.1, split.2)
  else if isWordStart char then
    (ofWord (char :: chars.takeWhile isWordPart), chars.dropWhile isWordPart)
  else
    match Enclosure.ofOpener? char with
    | some enclosure => firstEnclosed enclosure char chars
    | none => firstSymbol char chars

/-! ## Nothing is lost -/

theorem splitLine_append (chars : List Char) :
    (splitLine chars).1 ++ (splitLine chars).2 = chars :=
  List.takeWhile_append_dropWhile

theorem splitNumeral_append (chars : List Char) :
    (splitNumeral chars).1 ++ (splitNumeral chars).2 = chars := by
  have whole := List.takeWhile_append_dropWhile (p := Char.isDigit) (l := chars)
  simp only [splitNumeral]
  split
  · next point later after =>
    split
    · simpa [after] using whole
    · simpa [after] using whole
  · next after => simpa [after] using whole

/-- A text that begins with a numeral gives a numeral that is not empty. -/
theorem splitNumeral_ne_nil {char : Char} {chars : List Char}
    (starts : startsNumeral char chars = true) : (splitNumeral (char :: chars)).1 ≠ [] := by
  by_cases digit : char.isDigit = true
  · have whole : (char :: chars).takeWhile Char.isDigit = char :: chars.takeWhile Char.isDigit := by
      simp [digit]
    simp only [splitNumeral, whole]
    split
    · split <;> simp
    · simp
  · have split : char = '.' ∧ chars.head?.any Char.isDigit = true := by
      simpa [startsNumeral, digit] using starts
    have noWord : ¬chars.head?.any isWordStart = true := by
      cases chars with
      | nil => simp at split
      | cons next later =>
        have digit : next.isDigit = true := by simpa using split.2
        simp [isWordStart_eq_false_of_isDigit digit]
    have after : (char :: chars).dropWhile Char.isDigit = char :: chars := by
      simp [digit]
    simp only [splitNumeral, after]
    rw [if_pos ⟨split.1, noWord⟩]
    simp

theorem spelling_ofNumeral (spelling : List Char) : (ofNumeral spelling).spelling = spelling := by
  unfold ofNumeral
  split <;> rfl

theorem spelling_ofWord (spelling : List Char) : (ofWord spelling).spelling = spelling := by
  unfold ofWord
  simp only
  split <;> rfl

theorem spelling_firstEnclosed (enclosure : Enclosure) (char : Char) (chars : List Char) :
    (firstEnclosed enclosure char chars).1.spelling ++ (firstEnclosed enclosure char chars).2 =
      char :: chars := by
  unfold firstEnclosed
  split
  · next closed found => simp [spelling, Enclosure.spelling_append_rest found]
  · simp [spelling, splitLine_append]

theorem spelling_firstSymbol (char : Char) (chars : List Char) :
    (firstSymbol char chars).1.spelling ++ (firstSymbol char chars).2 = char :: chars := by
  unfold firstSymbol
  split
  · exact congrArg (char :: ·) (List.take_append_drop 1 chars)
  · split <;> simp [spelling]

/-- **The first piece and the text after it make up the text.** -/
theorem spelling_first (char : Char) (chars : List Char) :
    (first char chars).1.spelling ++ (first char chars).2 = char :: chars := by
  unfold first
  split
  · simp [spelling]
  split
  · next opens =>
    cases chars with
    | nil => simp at opens
    | cons next later =>
      have same : next = char := eq_of_opensComment (by simpa using opens)
      simp [firstComment, spelling, splitLine_append, same]
  split
  · simp [spelling_ofNumeral, splitNumeral_append]
  split
  · simp [spelling_ofWord]
  split
  · exact spelling_firstEnclosed _ char chars
  · exact spelling_firstSymbol char chars

/-- **The first piece is not empty**, so there is less text after it. -/
theorem spelling_first_ne_nil (char : Char) (chars : List Char) :
    (first char chars).1.spelling ≠ [] := by
  unfold first
  split
  · simp [spelling]
  split
  · simp [firstComment, spelling]
  split
  · next starts => simpa [spelling_ofNumeral] using splitNumeral_ne_nil starts
  split
  · simp [spelling_ofWord]
  split
  · unfold firstEnclosed
    split <;> simp [spelling]
  · unfold firstSymbol
    split
    · simp [spelling]
    · split <;> simp [spelling]

theorem length_first_rest (char : Char) (chars : List Char) :
    (first char chars).2.length < (char :: chars).length := by
  have whole := congrArg List.length (spelling_first char chars)
  have some := List.length_pos_iff.mpr (spelling_first_ne_nil char chars)
  simp only [List.length_append] at whole
  omega

/-! ## All pieces -/

/-- The pieces of a text, in order. -/
def all : List Char → List Piece
  | [] => []
  | char :: chars => (first char chars).1 :: all (first char chars).2
termination_by chars => chars.length
decreasing_by exact length_first_rest char chars

/-- **Cutting is lossless**: the pieces put together give the text. -/
theorem spellings (chars : List Char) : (all chars).flatMap spelling = chars := by
  fun_induction all chars with
  | case1 => rfl
  | case2 char chars ih => simpa [ih] using spelling_first char chars

end Piece

end DaxScript
