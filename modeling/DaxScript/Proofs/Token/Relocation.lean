import DaxScript.Proofs.Grammar.Relocation
import DaxScript.Proofs.Text.Position
import DaxScript.Proofs.Text.Span
import DaxScript.Proofs.Token.Placement

/-!
# Pieces in other places

Pieces that are placed from another position on have the same tokens and the same faults there.
A relocation follows a position when it takes every position behind it to the one that the same
text leads to from the new place (`Relocation.Follows`).
-/

set_option autoImplicit false

namespace DaxScript.Relocation

/-- The relocation goes on behind a position as texts do. -/
def Follows (place : Relocation) (position : Position) : Prop :=
  ∀ chars, place.position (position.advanceAll chars) = (place.position position).advanceAll chars

/-- The relocation of diagnostics. -/
def diagnostic (place : Relocation) (diagnostic : Diagnostic) : Diagnostic :=
  { diagnostic with position := place.position diagnostic.position }

theorem diagnostics_piece (place : Relocation) (piece : Piece) (position : Position) :
    (piece.diagnostics position).map place.diagnostic =
      piece.diagnostics (place.position position) := by
  unfold Piece.diagnostics
  cases piece.fault? <;> rfl

namespace Follows

variable {place : Relocation} {position : Position}

theorem behind (follows : place.Follows position) (chars : List Char) :
    place.Follows (position.advanceAll chars) := by
  intro more
  rw [← Position.advanceAll_append, follows, Position.advanceAll_append, ← follows]

theorem token_place (follows : place.Follows position) (kind : TokenKind) (spelling : List Char) :
    place.token (Token.place kind position spelling) =
      Token.place kind (place.position position) spelling := by
  have stop : place.offset (position.offset + byteLength spelling) =
      (place.position position).offset + byteLength spelling := by
    rw [← Position.offset_advanceAll, ← place.consistent, follows, Position.offset_advanceAll]
  simp only [token, Token.place, span, Span.moved, stop, place.consistent]

theorem token? (follows : place.Follows position) (piece : Piece) :
    (piece.token? position).map place.token = piece.token? (place.position position) := by
  cases piece with
  | token => exact congrArg some (follows.token_place _ _)
  | _ => rfl

theorem ownTokens (follows : place.Follows position) (piece : Piece) :
    (piece.ownTokens position).map place.token = piece.ownTokens (place.position position) := by
  unfold Piece.ownTokens
  rw [← follows.token?]
  cases piece.token? position with
  | none => rfl
  | some token => cases trivia : token.kind.isTrivia <;> simp [Option.filter, trivia]

/-- **Pieces have the same tokens everywhere.** -/
theorem tokens (follows : place.Follows position) (pieces : List Piece) :
    (Piece.tokens position pieces).map place.token =
      Piece.tokens (place.position position) pieces := by
  induction pieces generalizing position with
  | nil => rfl
  | cons piece pieces ih =>
    rw [Piece.tokens, List.map_append, follows.ownTokens, ih (follows.behind _), follows]
    rfl

/-- **What is wrong with pieces is wrong with them everywhere.** -/
theorem faults (follows : place.Follows position) (pieces : List Piece) :
    (Piece.faults position pieces).map (List.map place.diagnostic) =
      Piece.faults (place.position position) pieces := by
  induction pieces generalizing position with
  | nil => rfl
  | cons piece pieces ih =>
    have later := ih (follows.behind piece.spelling)
    rw [follows] at later
    rw [Piece.faults, Piece.faults, ← later, ← follows.ownTokens, ← place.diagnostics_piece,
      List.isEmpty_map]
    split
    · cases Piece.faults (position.advanceAll piece.spelling) pieces with
      | nil => rfl
      | cons => simp [Piece.addToFirst]
    · rfl

end Follows

/-- From the beginning of a text to a position. -/
def startingAt (position : Position) : Relocation where
  offset := (position.offset + ·)
  position inner :=
    ⟨position.offset + inner.offset, position.line + (inner.line - 1),
      if inner.line = 1 then position.column + (inner.column - 1) else inner.column⟩
  monotone before := Nat.add_le_add_left before _
  consistent _ := rfl

theorem startingAt_start (position : Position) :
    (startingAt position).position .start = position :=
  rfl

/-- Lines and columns count from one. -/
theorem counts_advance {inner : Position} (line : 1 ≤ inner.line) (column : 1 ≤ inner.column)
    (char : Char) : 1 ≤ (inner.advance char).line ∧ 1 ≤ (inner.advance char).column := by
  unfold Position.advance
  split
  · exact ⟨Nat.le_succ_of_le line, Nat.le_refl 1⟩
  · exact ⟨line, Nat.le_succ_of_le column⟩

theorem startingAt_advance (position : Position) {inner : Position} (line : 1 ≤ inner.line)
    (column : 1 ≤ inner.column) (char : Char) :
    (startingAt position).position (inner.advance char) =
      ((startingAt position).position inner).advance char := by
  obtain ⟨offset, innerLine, innerColumn⟩ := inner
  obtain ⟨lines, rfl⟩ : ∃ lines, innerLine = lines + 1 := Nat.exists_eq_add_of_le' line
  obtain ⟨columns, rfl⟩ : ∃ columns, innerColumn = columns + 1 :=
    Nat.exists_eq_add_of_le' column
  by_cases lineFeed : char = '\n'
  · simp [startingAt, Position.advance, lineFeed, Nat.add_assoc]
  · by_cases firstLine : lines = 0
    · simp [startingAt, Position.advance, lineFeed, firstLine, Nat.add_assoc]
    · simp [startingAt, Position.advance, lineFeed, firstLine, Nat.add_assoc]

/-- What follows a position does so from the beginning of a text. -/
theorem follows_startingAt (position : Position) : (startingAt position).Follows .start := by
  have onward (chars : List Char) (inner : Position) (line : 1 ≤ inner.line)
      (column : 1 ≤ inner.column) : (startingAt position).position (inner.advanceAll chars) =
        ((startingAt position).position inner).advanceAll chars := by
    induction chars generalizing inner with
    | nil => rfl
    | cons char chars ih =>
      obtain ⟨line', column'⟩ := counts_advance line column char
      rw [Position.advanceAll_cons, ih _ line' column', startingAt_advance position line column,
        Position.advanceAll_cons]
  exact fun chars => onward chars .start (Nat.le_refl 1) (Nat.le_refl 1)

/-- From a text to the text in which other characters stand behind a position in the place of old
ones. -/
def respelling (start : Position) (old new : List Char) : Relocation where
  offset inner :=
    if inner ≤ start.offset then inner
    else (start.advanceAll new).offset + (inner - (start.advanceAll old).offset)
  position inner :=
    if inner.offset ≤ start.offset then inner
    else
      let stop := start.advanceAll old
      let other := start.advanceAll new
      ⟨other.offset + (inner.offset - stop.offset), other.line + (inner.line - stop.line),
        if inner.line = stop.line then other.column + (inner.column - stop.column)
        else inner.column⟩
  monotone before := by
    have offset := Position.offset_advanceAll start new
    split <;> split <;> omega
  consistent place := by
    split <;> rfl

section Respelling

variable (start : Position) (old new : List Char)

/-- Up to the characters everything stays in its place. -/
theorem respelling_position_of_le {inner : Position} (before : inner.offset ≤ start.offset) :
    (respelling start old new).position inner = inner :=
  if_pos before

theorem respelling_offset_of_le {inner : Nat} (before : inner ≤ start.offset) :
    (respelling start old new).offset inner = inner :=
  if_pos before

/-- Up to the characters tokens stay in their places. -/
theorem respelling_tokens_of_le {position : Position} {pieces : List Piece}
    (before : position.offset + byteLength (Piece.text pieces) ≤ start.offset) :
    (Piece.tokens position pieces).map (respelling start old new).token =
      Piece.tokens position pieces := by
  refine (List.map_congr_left fun token member => ?_).trans (List.map_id _)
  have within := Piece.within_of_mem_tokens member
  have place : token.position.offset = token.span.start := by
    obtain ⟨_, _, same⟩ := List.append_of_mem member
    obtain ⟨_, piece, _, _, _, single, _⟩ := Piece.tokens_eq_append same
    have own := Piece.mem_ownTokens_iff.mp (single.symm ▸ List.mem_singleton_self token)
    rw [Piece.eq_place_of_token? own.1]
    rfl
  have samePosition := @respelling_position_of_le start old new token.position (by omega)
  have sameStart := @respelling_offset_of_le start old new token.span.start (by omega)
  have sameStop := @respelling_offset_of_le start old new token.span.stop (by omega)
  simp only [Relocation.token, Relocation.span, Span.moved, samePosition, sameStart, sameStop, id]

variable {old}

/-- Where a text leads to from behind the old characters. -/
theorem respelling_position_advanceAll (some : old ≠ []) (chars : List Char) :
    (respelling start old new).position ((start.advanceAll old).advanceAll chars) =
      (start.advanceAll new).advanceAll chars := by
  have behind : ¬((start.advanceAll old).advanceAll chars).offset ≤ start.offset := by
    have positive := byteLength_pos some
    rw [Position.offset_advanceAll, Position.offset_advanceAll]
    omega
  have same : ∀ position : Position, position.advanceAll chars =
      ⟨position.offset + byteLength chars, position.line + chars.count '\n',
        if chars.count '\n' = 0 then position.column + chars.length
        else 1 + (lastLine chars).length⟩ := by
    intro position
    rw [← Position.offset_advanceAll, ← Position.line_advanceAll, ← Position.column_advanceAll_eq]
  refine (if_neg behind).trans ?_
  rw [same (start.advanceAll old), same (start.advanceAll new)]
  simp only [Nat.add_sub_cancel_left, Nat.add_eq_left]
  split
  · rw [Nat.add_sub_cancel_left]
  · rfl

/-- What stands behind the old characters stands behind the new ones. -/
theorem respelling_follows (some : old ≠ []) :
    (respelling start old new).Follows (start.advanceAll old) := by
  intro chars
  rw [respelling_position_advanceAll start new some]
  exact congrArg (·.advanceAll chars) (respelling_position_advanceAll start new some []).symm

end Respelling

/-- From the beginning of a text to behind another text that ends with a line. -/
def behindLines (text : List Char) : Relocation where
  offset := (· + byteLength text)
  position inner := ⟨inner.offset + byteLength text, inner.line + text.count '\n', inner.column⟩
  monotone before := Nat.add_le_add_right before _
  consistent _ := rfl

theorem behindLines_follows (text : List Char) (position : Position) :
    (behindLines text).Follows position := by
  intro chars
  induction chars generalizing position with
  | nil => rfl
  | cons char chars ih =>
    rw [Position.advanceAll_cons, ih, Position.advanceAll_cons]
    congr 1
    unfold Position.advance
    split
    · simp [behindLines, Nat.add_right_comm]
    · simp [behindLines, Nat.add_right_comm]

/-- Behind some lines a line begins. -/
theorem behindLines_start (text : List Char) :
    (behindLines (text ++ ['\n'])).position .start =
      Position.start.advanceAll (text ++ ['\n']) := by
  have offset := Position.offset_advanceAll .start (text ++ ['\n'])
  have line := Position.line_advanceAll .start (text ++ ['\n'])
  have column : (Position.start.advanceAll (text ++ ['\n'])).column = 1 := by
    rw [Position.advanceAll_append]
    rfl
  generalize Position.start.advanceAll (text ++ ['\n']) = position at offset line column ⊢
  obtain ⟨_, _, _⟩ := position
  subst offset line column
  rfl

end DaxScript.Relocation
