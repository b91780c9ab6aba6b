import DaxScript.Token.Comment
import DaxScript.Token.Enclosure
import DaxScript.Token.Word
import DaxScript.Unicode.WhiteSpace

/-!
# Cutting a source for its outline

The outline of a script is wanted while it is being typed, so it rests on a coarser cut than the
tokens: blanks, comments, words, enclosed texts and single signs.  A comment ends at a line feed
only.  What is opened and never closed reaches to the end of the source, for that is where the
closing character is going to be typed.
-/

set_option autoImplicit false

namespace DaxScript.Outline

/-- A segment of a source. -/
inductive Segment where
  | blank (char : Char)
  | comment (spelling : List Char)
  | word (spelling : List Char)
  /-- A text between quotes or brackets, with these. -/
  | enclosed (spelling : List Char)
  | sign (char : Char)
  deriving DecidableEq

namespace Segment

/-- The characters of a segment. -/
def spelling : Segment → List Char
  | blank char => [char]
  | comment spelling => spelling
  | word spelling => spelling
  | enclosed spelling => spelling
  | sign char => [char]

/-- An enclosed text, or all that is left when it is not closed. -/
def firstEnclosed (enclosure : Enclosure) (char : Char) (chars : List Char) :
    Segment × List Char :=
  match enclosure.close? chars with
  | some closed => (enclosed (char :: closed.spelling), closed.rest)
  | none => (enclosed (char :: chars), [])

/-- The first segment of a non-empty text and the text after it. -/
def first (char : Char) (chars : List Char) : Segment × List Char :=
  if Unicode.isWhiteSpace char then (blank char, chars)
  else if chars.head?.any (opensComment char) then
    (comment (char :: chars.takeWhile (· != '\n')), chars.dropWhile (· != '\n'))
  else if isWordStart char then
    (word (char :: chars.takeWhile isWordPart), chars.dropWhile isWordPart)
  else
    match Enclosure.ofOpener? char with
    | some enclosure => firstEnclosed enclosure char chars
    | none => (sign char, chars)

/-- The first segment and the text after it make up the text. -/
theorem spelling_first (char : Char) (chars : List Char) :
    (first char chars).1.spelling ++ (first char chars).2 = char :: chars := by
  unfold first
  split
  · simp [spelling]
  split
  · simp [spelling]
  split
  · simp [spelling]
  split
  · unfold firstEnclosed
    split
    · next closed found => simp [spelling, Enclosure.spelling_append_rest found]
    · simp [spelling]
  · simp [spelling]

/-- The first segment is not empty. -/
theorem spelling_first_ne_nil (char : Char) (chars : List Char) :
    (first char chars).1.spelling ≠ [] := by
  unfold first
  split
  · simp [spelling]
  split
  · simp [spelling]
  split
  · simp [spelling]
  split
  · unfold firstEnclosed
    split <;> simp [spelling]
  · simp [spelling]

theorem length_first_rest (char : Char) (chars : List Char) :
    (first char chars).2.length < (char :: chars).length := by
  have whole := congrArg List.length (spelling_first char chars)
  have some := List.length_pos_iff.mpr (spelling_first_ne_nil char chars)
  simp only [List.length_append] at whole
  omega

/-- The segments of a text, in order. -/
def all : List Char → List Segment
  | [] => []
  | char :: chars => (first char chars).1 :: all (first char chars).2
termination_by chars => chars.length
decreasing_by exact length_first_rest char chars

end Segment

end DaxScript.Outline
