import DaxScript.Proofs.LosslessTokens
import DaxScript.Proofs.Token.Relocation

/-!
# Cutting a source into tokens has no memory

A token depends on its own characters only.  Alone they are cut into the same token, and the
characters behind it are cut into the tokens behind it, as if a new source began there
(`tokenize_stateless`).  How far was looked ahead to find the end of a token makes no difference
afterwards: a piece is the only one of its own text (`Piece.all_spelling`), and the pieces behind
it are those of the text behind it (`Piece.all_drop`).
-/

set_option autoImplicit false

namespace DaxScript

/-- Pieces have the same tokens everywhere, comments included. -/
theorem Relocation.Follows.allTokens {place : Relocation} {position : Position}
    (follows : place.Follows position) (pieces : List Piece) :
    (Piece.allTokens position pieces).map place.token =
      Piece.allTokens (place.position position) pieces := by
  induction pieces generalizing position with
  | nil => rfl
  | cons piece pieces ih =>
    rw [Piece.allTokens, List.map_append, ← Option.toList_map, follows.token?,
      ih (follows.behind _), follows]
    rfl

/-- A token among those of pieces is the token of one of the pieces, and the tokens behind it are
those of the pieces behind. -/
theorem Piece.allTokens_eq_append {position : Position} {pieces : List Piece}
    {before after : List Token} {token : Token}
    (cut : allTokens position pieces = before ++ token :: after) :
    ∃ front piece behind, pieces = front ++ piece :: behind ∧
      piece.token? (position.advanceAll (text front)) = some token ∧
      allTokens (position.advanceAll (text (front ++ [piece]))) behind = after := by
  induction pieces generalizing position before with
  | nil => cases before <;> cases cut
  | cons piece pieces ih =>
    -- The token is found further behind, where the first piece is put in front of what is found.
    have later {earlier : List Token}
        (cut : allTokens (position.advanceAll piece.spelling) pieces = earlier ++ token :: after) :
        ∃ front found behind, piece :: pieces = front ++ found :: behind ∧
          found.token? (position.advanceAll (text front)) = some token ∧
          allTokens (position.advanceAll (text (front ++ [found]))) behind = after := by
      obtain ⟨front, found, behind, rfl, placed, rest⟩ := ih cut
      refine ⟨piece :: front, found, behind, rfl, ?_, ?_⟩
      · rwa [text_cons, Position.advanceAll_append]
      · rwa [List.cons_append, text_cons, Position.advanceAll_append]
    rw [allTokens] at cut
    cases own : piece.token? position with
    | none =>
      rw [own] at cut
      exact later cut
    | some first =>
      rw [own] at cut
      cases before with
      | nil =>
        obtain ⟨rfl, rest⟩ := List.cons.inj cut
        exact ⟨[], piece, pieces, rfl, own, by simpa using rest⟩
      | cons _ before => exact later (List.cons.inj cut).2

section Source

variable {source : String} {before after : List Token} {token : Token}

/-- A token of a source that is not the end of the input stands for one of the pieces. -/
theorem exists_piece_of_tokenize (cut : tokenize source = before ++ token :: after)
    (notEnd : token.kind ≠ .endOfInput) :
    ∃ front piece behind, Piece.all source.toList = front ++ piece :: behind ∧
      piece.token? (Position.start.advanceAll (Piece.text front)) = some token ∧
      after = Piece.allTokens (Position.start.advanceAll (Piece.text (front ++ [piece]))) behind ++
        [Token.atEnd (Position.start.advanceAll source.toList)] := by
  have notLast : token ≠ Token.atEnd (Position.start.advanceAll source.toList) := by
    rintro rfl
    exact notEnd rfl
  rw [tokenize_eq, List.append_eq_append_iff] at cut
  rcases cut with ⟨more, rfl, last⟩ | ⟨more, others, last⟩
  · obtain ⟨_, same⟩ | ⟨_, same, nothing⟩ := List.singleton_eq_append_iff.mp last
    exact absurd (List.cons.inj same).1 notLast
  · cases more with
    | nil => exact absurd (List.cons.inj last).1 notLast
    | cons _ more =>
      obtain ⟨rfl, rfl⟩ := List.cons.inj last
      obtain ⟨front, piece, behind, pieces, placed, rfl⟩ := Piece.allTokens_eq_append others
      exact ⟨front, piece, behind, pieces, placed, rfl⟩

end Source

/-- The only token of a piece's own text is the token of the piece. -/
theorem tokenize_spelling {chars : List Char} {piece : Piece} {position : Position} {token : Token}
    (member : piece ∈ Piece.all chars) (placed : piece.token? position = some token) :
    tokenize (String.ofList piece.spelling) =
      [Token.place token.kind .start piece.spelling,
        Token.atEnd (Position.start.advanceAll piece.spelling)] := by
  rw [tokenize_eq, String.toList_ofList, Piece.all_spelling member]
  cases piece with
  | token =>
    cases placed
    rfl
  | _ => cases placed

/-- The tokens of the text behind some pieces, moved to where that text stands. -/
theorem tokenize_text_behind {chars : List Char} {front behind : List Piece}
    (cut : Piece.all chars = front ++ behind) :
    (tokenize (String.ofList (Piece.text behind))).map
        (Relocation.startingAt (Position.start.advanceAll (Piece.text front))).token =
      Piece.allTokens (Position.start.advanceAll (Piece.text front)) behind ++
        [Token.atEnd (Position.start.advanceAll chars)] := by
  have split : chars = Piece.text front ++ Piece.text behind := by
    rw [← Piece.text_append, ← cut]
    exact (Piece.spellings chars).symm
  have follows :=
    Relocation.follows_startingAt (Position.start.advanceAll (Piece.text front))
  have alone : Piece.all (Piece.text behind) = behind := Piece.all_drop cut
  rw [tokenize_eq, String.toList_ofList, alone, List.map_append, follows.allTokens,
    List.map_singleton, Token.atEnd, (follows.behind _).token_place, follows,
    Relocation.startingAt_start, split, Position.advanceAll_append]
  rfl

/-- **Cutting a source into tokens has no memory.**  The text of a token alone is cut into the
same token, and the text behind it into the tokens behind, which count their offsets, lines and
columns from the place behind the token on. -/
theorem tokenize_stateless (source : String) {before after : List Token} {token : Token}
    (cut : tokenize source = before ++ token :: after) (notEnd : token.kind ≠ .endOfInput) :
    (∃ own, token.span.slice? source.toList = some own ∧
      tokenize (String.ofList own) =
        [Token.place token.kind .start own, Token.atEnd (Position.start.advanceAll own)]) ∧
    ∃ front rest, splitAtByte? token.span.stop source.toList = some (front, rest) ∧
      after = (tokenize (String.ofList rest)).map
        (Relocation.startingAt (Position.start.advanceAll front)).token := by
  obtain ⟨front, piece, behind, pieces, placed, rfl⟩ := exists_piece_of_tokenize cut notEnd
  have written := Piece.eq_place_of_token? placed
  have stop : token.span.stop = byteLength (Piece.text (front ++ [piece])) := by
    rw [written]
    simp [Token.place, Position.start]
  have split : source.toList = Piece.text (front ++ [piece]) ++ Piece.text behind := by
    have whole := Piece.spellings source.toList
    rw [pieces] at whole
    rw [← whole]
    simp [Piece.text]
  constructor
  · have covered : token.span.slice? source.toList = some token.spelling.toList :=
      slice?_of_mem_tokenize (cut ▸ List.mem_append_right _ (List.mem_cons_self ..))
    have spelled : token.spelling.toList = piece.spelling := by
      rw [written]
      exact String.toList_ofList
    have isPiece : piece ∈ Piece.all source.toList := by simp [pieces]
    exact ⟨piece.spelling, by rw [covered, spelled], tokenize_spelling isPiece placed⟩
  · refine ⟨Piece.text (front ++ [piece]), Piece.text behind, ?_, ?_⟩
    · rw [stop, split]
      exact splitAtByte?_append _ _
    · have cutBehind : Piece.all source.toList = (front ++ [piece]) ++ behind := by
        rw [pieces, List.append_cons]
      exact (tokenize_text_behind cutBehind).symm

/-- A name that is never closed ends with its line, behind a number that a point cannot belong
to. -/
theorem tokenize_stateless_open :
    let source := "0.a 'é--\r0"
    let before := [Token.place (.number (.finite 0 0)) ⟨0, 1, 1⟩ ['0'],
      Token.place (.symbol .dot) ⟨1, 1, 2⟩ ['.'], Token.place (.identifier "a") ⟨2, 1, 3⟩ ['a']]
    let token := Token.place (.quotedName "é--") ⟨4, 1, 5⟩ ['\'', 'é', '-', '-']
    let after := [Token.place (.number (.finite 0 0)) ⟨10, 1, 10⟩ ['0'], Token.atEnd ⟨11, 1, 11⟩]
    tokenize source = before ++ token :: after ∧ token.kind ≠ .endOfInput ∧
      (∃ own, token.span.slice? source.toList = some own ∧
        tokenize (String.ofList own) =
          [Token.place token.kind .start own, Token.atEnd (Position.start.advanceAll own)]) ∧
      ∃ front rest, splitAtByte? token.span.stop source.toList = some (front, rest) ∧
        after = (tokenize (String.ofList rest)).map
          (Relocation.startingAt (Position.start.advanceAll front)).token := by
  intro source before token after
  have cut : tokenize source = before ++ token :: after := by decide +kernel
  have notEnd : token.kind ≠ .endOfInput := by decide
  exact ⟨cut, notEnd, tokenize_stateless source cut notEnd⟩

end DaxScript
