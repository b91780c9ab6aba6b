import DaxScript.Text.Position

/-!
# Byte ranges of a text

A span is a range of bytes, its end exclusive.  Nothing forces a span to fit a given text: it may
lie outside, be inverted or cut a character in two, and then it covers no text at all.
-/

set_option autoImplicit false

namespace DaxScript

/-- Cuts a text after the given number of bytes.  There is no such cut past the end of the text
or inside a character. -/
def splitAtByte? : Nat → List Char → Option (List Char × List Char)
  | 0, chars => some ([], chars)
  | _ + 1, [] => none
  | bytes + 1, char :: chars =>
    if char.utf8Size ≤ bytes + 1 then
      (splitAtByte? (bytes + 1 - char.utf8Size) chars).map fun parts => (char :: parts.1, parts.2)
    else none

/-- Every text can be cut after one of its prefixes. -/
theorem splitAtByte?_append (first second : List Char) :
    splitAtByte? (byteLength first) (first ++ second) = some (first, second) := by
  induction first with
  | nil => cases second <;> rfl
  | cons char chars ih =>
    have positive : 0 < char.utf8Size := char.utf8Size_pos
    obtain ⟨bytes, size⟩ : ∃ bytes, byteLength (char :: chars) = bytes + 1 :=
      ⟨char.utf8Size + byteLength chars - 1, by simp; omega⟩
    have rest : bytes + 1 - char.utf8Size = byteLength chars := by simp at size; omega
    have fits : char.utf8Size ≤ bytes + 1 := by simp at size; omega
    rw [size, List.cons_append, splitAtByte?, if_pos fits, rest, ih]
    rfl

/-- A range of bytes, its end exclusive. -/
structure Span where
  start : Nat
  stop : Nat
  deriving DecidableEq

namespace Span

/-- The smallest span that covers both. -/
def cover (first second : Span) : Span :=
  ⟨min first.start second.start, max first.stop second.stop⟩

/-- The number of bytes covered; an inverted span covers none. -/
def length (span : Span) : Nat :=
  span.stop - span.start

def isEmpty (span : Span) : Bool :=
  span.length == 0

/-- The part of a text that the span covers, or `none` when it does not fit the text. -/
def slice? (span : Span) (chars : List Char) : Option (List Char) :=
  if span.start ≤ span.stop then do
    let before ← splitAtByte? span.start chars
    let covered ← splitAtByte? span.length before.2
    some covered.1
  else none

/-- The part of a text that the span covers, empty when the span does not fit the text. -/
def slice (span : Span) (chars : List Char) : List Char :=
  (span.slice? chars).getD []

/-- The span of a middle part covers exactly that part. -/
theorem slice_append (before covered after : List Char) :
    (Span.mk (byteLength before) (byteLength before + byteLength covered)).slice
      (before ++ covered ++ after) = covered := by
  simp only [slice, slice?, length, Nat.le_add_right, if_true, Nat.add_sub_cancel_left,
    List.append_assoc, splitAtByte?_append, Option.bind_eq_bind, Option.bind_some,
    Option.getD_some]

end Span

end DaxScript
