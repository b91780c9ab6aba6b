import Mathlib.Data.List.DropRight
import DaxScript.Text.Span

/-!
# Lines and columns by counting

Positions are found by reading on, one character after the other.  Here lines and columns are
counted instead: the line feeds in front of an offset, and the characters since the last of them
(`Position.ofOffset?`).  A position that is reached by reading from the start of a text is the one
that is counted for its offset (`Position.IsReached.ofOffset?`), and its line and its column are
at most one more than the number of characters of the text.
-/

set_option autoImplicit false

namespace DaxScript

/-- The characters of a text behind its last line feed. -/
def lastLine (text : List Char) : List Char :=
  text.rtakeWhile (· != '\n')

theorem lastLine_concat_lineFeed (text : List Char) : lastLine (text ++ ['\n']) = [] :=
  List.rtakeWhile_concat_neg _ _ _ (by simp)

theorem lastLine_concat {char : Char} (noLineFeed : char ≠ '\n') (text : List Char) :
    lastLine (text ++ [char]) = lastLine text ++ [char] :=
  List.rtakeWhile_concat_pos _ _ _ (by simpa using noLineFeed)

theorem length_lastLine_le (text : List Char) : (lastLine text).length ≤ text.length :=
  (List.rtakeWhile_suffix _ text).length_le

namespace Position

/-- The position at an offset of a text, counted from what stands in front of it.  There is none
past the end of the text or inside a character. -/
def ofOffset? (text : List Char) (offset : Nat) : Option Position :=
  (splitAtByte? offset text).map fun parts =>
    ⟨offset, 1 + parts.1.count '\n', 1 + (lastLine parts.1).length⟩

/-! ## Reading on -/

theorem advanceAll_concat (position : Position) (text : List Char) (char : Char) :
    position.advanceAll (text ++ [char]) = (position.advanceAll text).advance char := by
  rw [advanceAll_append]
  rfl

/-- Reading goes to the next line with every line feed. -/
theorem line_advanceAll (position : Position) (text : List Char) :
    (position.advanceAll text).line = position.line + text.count '\n' := by
  induction text generalizing position with
  | nil => rfl
  | cons char chars ih =>
    rw [advanceAll_cons, ih]
    unfold advance
    by_cases lineFeed : char = '\n'
    · rw [if_pos lineFeed, lineFeed, List.count_cons_self]
      exact Nat.succ_add_eq_add_succ _ _
    · rw [if_neg lineFeed, List.count_cons_of_ne lineFeed]

/-- The column tells how much of the last line has been read. -/
theorem column_advanceAll (text : List Char) :
    (start.advanceAll text).column = 1 + (lastLine text).length := by
  induction text using List.reverseRecOn with
  | nil => rfl
  | append_singleton text char ih =>
    rw [advanceAll_concat]
    unfold advance
    by_cases lineFeed : char = '\n'
    · rw [if_pos lineFeed, lineFeed, lastLine_concat_lineFeed]
      rfl
    · rw [if_neg lineFeed, lastLine_concat lineFeed, List.length_append, ih]
      rfl

/-- On the same line the column goes on, and on a later one it is that of the text. -/
theorem column_advanceAll_eq (position : Position) (text : List Char) :
    (position.advanceAll text).column =
      if text.count '\n' = 0 then position.column + text.length
      else 1 + (lastLine text).length := by
  induction text using List.reverseRecOn with
  | nil => rfl
  | append_singleton text char ih =>
    rw [advanceAll_concat, List.count_append]
    unfold advance
    by_cases lineFeed : char = '\n'
    · subst lineFeed
      simp [lastLine_concat_lineFeed]
    · have none : List.count '\n' [char] = 0 := by simp [lineFeed]
      simp only [if_neg lineFeed, lastLine_concat lineFeed, List.length_append, none,
        Nat.add_zero, ih]
      split <;> rfl

/-! ## Positions of a text -/

/-- A position that is reached by reading a text from its start. -/
def IsReached (text : List Char) (position : Position) : Prop :=
  ∃ front behind, text = front ++ behind ∧ position = start.advanceAll front

namespace IsReached

variable {text : List Char} {position : Position}

theorem of_append (front behind : List Char) :
    (start.advanceAll front).IsReached (front ++ behind) :=
  ⟨front, behind, rfl, rfl⟩

theorem finish (text : List Char) : (start.advanceAll text).IsReached text :=
  ⟨text, [], (List.append_nil text).symm, rfl⟩

/-- It lies within the text. -/
theorem offset_le (reached : position.IsReached text) : position.offset ≤ byteLength text := by
  obtain ⟨front, behind, rfl, rfl⟩ := reached
  simp [start]

/-- **It is the position that is counted for its offset.** -/
theorem ofOffset? (reached : position.IsReached text) :
    Position.ofOffset? text position.offset = some position := by
  obtain ⟨front, behind, rfl, rfl⟩ := reached
  have offset : (start.advanceAll front).offset = byteLength front := by simp [start]
  have line := line_advanceAll start front
  have column := column_advanceAll front
  rw [Position.ofOffset?, offset, splitAtByte?_append, Option.map_some, ← offset]
  generalize start.advanceAll front = position at offset line column ⊢
  obtain ⟨_, _, _⟩ := position
  simp only at line column
  rw [line, column]
  rfl

/-- Its line and its column are bounded by the number of characters. -/
theorem line_column_le (reached : position.IsReached text) :
    position.line ≤ 1 + text.length ∧ position.column ≤ 1 + text.length := by
  obtain ⟨front, behind, rfl, rfl⟩ := reached
  rw [line_advanceAll, column_advanceAll, List.length_append]
  have lines : front.count '\n' ≤ front.length := List.count_le_length
  have columns := length_lastLine_le front
  constructor
  · exact Nat.add_le_add_left (Nat.le_add_right_of_le lines) 1
  · exact Nat.add_le_add_left (Nat.le_add_right_of_le columns) 1

end IsReached

end Position

end DaxScript
