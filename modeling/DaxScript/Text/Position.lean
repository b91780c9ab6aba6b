/-!
# Positions in a text

A position counts three things at once: bytes of the UTF-8 encoding, lines and columns.  Bytes
locate a place for a program and lines and columns locate it for a reader, who counts
characters.  Reading one character is the only way to move, so a position is determined by the
text before it (`Position.advanceAll`).
-/

set_option autoImplicit false

namespace DaxScript

/-- The number of bytes in the UTF-8 encoding of a text. -/
def byteLength : List Char → Nat
  | [] => 0
  | char :: chars => char.utf8Size + byteLength chars

@[simp] theorem byteLength_nil : byteLength [] = 0 := rfl

@[simp] theorem byteLength_cons (char : Char) (chars : List Char) :
    byteLength (char :: chars) = char.utf8Size + byteLength chars := rfl

@[simp] theorem byteLength_append (first second : List Char) :
    byteLength (first ++ second) = byteLength first + byteLength second := by
  induction first with
  | nil => simp
  | cons char chars ih => simp [ih, Nat.add_assoc]

/-- A place in a text.  Lines and columns count from one. -/
structure Position where
  /-- Bytes before the place. -/
  offset : Nat
  line : Nat
  /-- One more than the number of characters since the line began. -/
  column : Nat
  deriving DecidableEq

namespace Position

/-- The place before the first character. -/
def start : Position := ⟨0, 1, 1⟩

/-- The place after one more character.  Only a line feed begins a new line. -/
def advance (position : Position) (char : Char) : Position :=
  if char = '\n' then ⟨position.offset + char.utf8Size, position.line + 1, 1⟩
  else ⟨position.offset + char.utf8Size, position.line, position.column + 1⟩

/-- The place after a whole text. -/
def advanceAll (position : Position) (chars : List Char) : Position :=
  chars.foldl advance position

@[simp] theorem advanceAll_nil (position : Position) : position.advanceAll [] = position := rfl

@[simp] theorem advanceAll_cons (position : Position) (char : Char) (chars : List Char) :
    position.advanceAll (char :: chars) = (position.advance char).advanceAll chars := rfl

theorem advanceAll_append (position : Position) (first second : List Char) :
    position.advanceAll (first ++ second) = (position.advanceAll first).advanceAll second := by
  simp [advanceAll]

@[simp] theorem offset_advance (position : Position) (char : Char) :
    (position.advance char).offset = position.offset + char.utf8Size := by
  unfold advance
  split <;> rfl

@[simp] theorem offset_advanceAll (position : Position) (chars : List Char) :
    (position.advanceAll chars).offset = position.offset + byteLength chars := by
  induction chars generalizing position with
  | nil => rfl
  | cons char chars ih => simp [ih, Nat.add_assoc]

/-- The form shown to readers: the line, a colon and the column. -/
def render (position : Position) : String :=
  toString position.line ++ ":" ++ toString position.column

end Position

end DaxScript
