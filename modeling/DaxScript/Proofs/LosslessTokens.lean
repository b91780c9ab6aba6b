import Mathlib.Logic.ExistsUnique
import DaxScript.Proofs.Text.Span
import DaxScript.Proofs.Token.Lookahead
import DaxScript.Proofs.Token.Placement

/-!
# Cutting a source into tokens loses nothing

The pieces of a source are its tokens, its blanks and its stray characters, and they stand one
behind the other without gaps.  So every character of the source lies in exactly one token, or is
white space, or is told to be unexpected, and it makes no difference whether a text was opened
and never closed: it is a piece like any other (`tokenize_lossless`).
-/

set_option autoImplicit false

namespace DaxScript

/-! ## Characters and spans -/

/-- A span contains the character that stands behind a part of the text. -/
def Span.Contains (span : Span) (before : List Char) (char : Char) : Prop :=
  span.start ≤ byteLength before ∧ byteLength before + char.utf8Size ≤ span.stop

namespace Piece

/-! ## All tokens of placed pieces -/

/-- The tokens of pieces from a position on, comments included. -/
def allTokens (position : Position) : List Piece → List Token
  | [] => []
  | piece :: pieces =>
    (piece.token? position).toList ++ allTokens (position.advanceAll piece.spelling) pieces

/-- The tokens of the lexemes are those of the pieces, and the end of the input. -/
theorem map_token_ofPieces (position : Position) (pieces : List Piece) :
    (Lexeme.ofPieces position pieces).map (·.token) =
      allTokens position pieces ++ [Token.atEnd (position.advanceAll (text pieces))] := by
  induction pieces generalizing position with
  | nil => rfl
  | cons piece pieces ih =>
    have later := ih (position.advanceAll piece.spelling)
    rw [text_cons, Position.advanceAll_append, allTokens, List.append_assoc, ← later]
    cases piece with
    | blank => exact map_token_addFaults _ _
    | stray => exact map_token_addFaults _ _
    | token => rfl

/-- Whatever is wrong with a piece of a source is told where the piece stands. -/
theorem mem_lexicalDiagnostics {source : String} {front behind : List Piece} {piece : Piece}
    {diagnostic : Diagnostic} (cut : all source.toList = front ++ piece :: behind)
    (told : diagnostic ∈ piece.diagnostics (Position.start.advanceAll (text front))) :
    diagnostic ∈ lexicalDiagnostics source := by
  rw [lexicalDiagnostics_eq, mem_flatten_faults_iff]
  exact ⟨front, piece, behind, cut, told⟩

theorem allTokens_append (position : Position) (first second : List Piece) :
    allTokens position (first ++ second) =
      allTokens position first ++ allTokens (position.advanceAll (text first)) second := by
  induction first generalizing position with
  | nil => rfl
  | cons piece first ih =>
    rw [List.cons_append, allTokens, ih, allTokens, List.append_assoc, text_cons,
      Position.advanceAll_append]

/-- Every token is that of a piece. -/
theorem exists_of_mem_allTokens {position : Position} {pieces : List Piece} {token : Token}
    (member : token ∈ allTokens position pieces) :
    ∃ front piece behind, pieces = front ++ piece :: behind ∧
      piece.token? (position.advanceAll (text front)) = some token := by
  induction pieces generalizing position with
  | nil => cases member
  | cons piece pieces ih =>
    rcases List.mem_append.mp member with own | later
    · exact ⟨[], piece, pieces, rfl, Option.mem_toList.mp own⟩
    · obtain ⟨front, found, behind, rfl, placed⟩ := ih later
      refine ⟨piece :: front, found, behind, rfl, ?_⟩
      rwa [text_cons, Position.advanceAll_append]

/-- A token lies within the text of the pieces. -/
theorem within_of_mem_allTokens {position : Position} {pieces : List Piece} {token : Token}
    (member : token ∈ allTokens position pieces) :
    position.offset ≤ token.span.start ∧
      token.span.stop ≤ position.offset + byteLength (text pieces) := by
  obtain ⟨front, piece, behind, rfl, placed⟩ := exists_of_mem_allTokens member
  rw [eq_place_of_token? placed, text_append, text_cons, byteLength_append, byteLength_append]
  simp only [Token.place, Position.offset_advanceAll]
  omega

/-- The tokens of pieces that are not empty are not empty and stand one behind the other. -/
theorem pairwise_allTokens {position : Position} {pieces : List Piece}
    (filled : ∀ piece ∈ pieces, piece.spelling ≠ []) :
    (allTokens position pieces).Pairwise fun first second =>
      first.span.start < second.span.start ∧ first.span.stop ≤ second.span.start := by
  induction pieces generalizing position with
  | nil => exact .nil
  | cons piece pieces ih =>
    rw [List.forall_mem_cons] at filled
    refine List.pairwise_append.mpr ⟨?_, ih filled.2, fun token own later behind => ?_⟩
    · cases piece.token? position with
      | none => exact .nil
      | some token => exact List.pairwise_singleton _ _
    · have bounds := (within_of_mem_allTokens behind).1
      have bytes := byteLength_pos filled.1
      rw [eq_place_of_token? (Option.mem_toList.mp own)]
      simp only [Token.place, Position.offset_advanceAll] at bounds ⊢
      omega

/-! ## The piece of a character -/

/-- A character of a text belongs to one of the pieces. -/
theorem exists_piece_of_char {pieces : List Piece} {before after : List Char} {char : Char}
    (split : text pieces = before ++ char :: after) :
    ∃ front piece behind inner outer, pieces = front ++ piece :: behind ∧
      piece.spelling = inner ++ char :: outer ∧ before = text front ++ inner := by
  induction pieces generalizing before with
  | nil => exact absurd split.symm (by simp)
  | cons piece pieces ih =>
    rw [text_cons, List.append_eq_append_iff] at split
    rcases split with ⟨more, rfl, rest⟩ | ⟨more, spelled, rest⟩
    · obtain ⟨front, found, behind, inner, outer, rfl, spelled, rfl⟩ := ih rest
      exact ⟨piece :: front, found, behind, inner, outer, rfl, spelled, by simp⟩
    · cases more with
      | nil =>
        -- The character stands right behind the piece.
        have rest : text pieces = [] ++ char :: after := rest.symm
        obtain ⟨front, found, behind, inner, outer, rfl, spelled', same⟩ := ih rest
        refine ⟨piece :: front, found, behind, inner, outer, rfl, spelled', ?_⟩
        rw [text_cons, List.append_assoc, ← same, spelled, List.append_nil, List.append_nil]
      | cons first outer =>
        obtain ⟨rfl, _⟩ := List.cons.inj rest
        exact ⟨[], piece, pieces, before, outer, rfl, spelled, rfl⟩

/-- A character of a token lies in no other one. -/
theorem contains_iff_of_piece {position : Position} {front : List Piece} {piece : Piece}
    (behind : List Piece) {inner outer : List Char} {char : Char}
    (spelled : piece.spelling = inner ++ char :: outer) (start : position.offset = 0)
    {token : Token} :
    (token ∈ allTokens position (front ++ piece :: behind) ∧
        token.span.Contains (text front ++ inner) char) ↔
      piece.token? (position.advanceAll (text front)) = some token := by
  have bytes : 0 < char.utf8Size := char.utf8Size_pos
  have size : byteLength piece.spelling =
      byteLength inner + (char.utf8Size + byteLength outer) := by
    rw [spelled, byteLength_append, byteLength_cons]
  rw [allTokens_append, allTokens, List.mem_append, List.mem_append, Option.mem_toList]
  constructor
  · rintro ⟨inFront | own | behind, inside⟩
    · have bounds := (within_of_mem_allTokens inFront).2
      rw [Span.Contains, byteLength_append] at inside
      omega
    · exact own
    · have bounds := (within_of_mem_allTokens behind).1
      rw [Span.Contains, byteLength_append] at inside
      simp only [Position.offset_advanceAll] at bounds
      omega
  · intro own
    refine ⟨.inr (.inl own), ?_⟩
    rw [eq_place_of_token? own, Span.Contains, byteLength_append]
    simp only [Token.place, Position.offset_advanceAll]
    omega

end Piece

/-! ## Sources -/

/-- Tokens and diagnostics account for all of a source. -/
structure Lossless (source : String) (tokens : List Token) (diagnostics : List Diagnostic) :
    Prop where
  /-- The end of the input comes last and covers nothing; all other tokens cover something. -/
  ends : ∃ others last, tokens = others ++ [last] ∧ last.kind = .endOfInput ∧
    last.span = ⟨byteLength source.toList, byteLength source.toList⟩ ∧
      ∀ token ∈ others, token.kind ≠ .endOfInput ∧ token.span.start < token.span.stop
  ordered : tokens.Pairwise fun first second =>
    first.span.start < second.span.start ∧ first.span.stop ≤ second.span.start
  /-- Spans lie in the source and cut no character in two. -/
  fitting : ∀ token ∈ tokens, token.span.slice? source.toList = some token.spelling.toList
  /-- A character lies in exactly one token, or in none because it is white space or unexpected. -/
  accounted : ∀ before char after, source.toList = before ++ char :: after →
    (∃! token, token ∈ tokens ∧ token.span.Contains before char) ∨
      ((∀ token ∈ tokens, ¬token.span.Contains before char) ∧
        (Unicode.isWhiteSpace char = true ∨
          Diagnostic.error .lexical ("unexpected character " ++ CharLiteral.render char)
            (Position.start.advanceAll before) ∈ diagnostics))

/-- The tokens of a source, from its pieces. -/
theorem tokenize_eq (source : String) :
    tokenize source = Piece.allTokens .start (Piece.all source.toList) ++
      [Token.atEnd (Position.start.advanceAll source.toList)] := by
  rw [tokenize, Lexeme.ofSource, Piece.map_token_ofPieces, Piece.text, Piece.spellings]

/-- A blank is white space. -/
theorem Piece.isWhiteSpace_of_blank {char found : Char} {chars : List Char}
    (read : (first char chars).1 = blank found) : Unicode.isWhiteSpace found = true := by
  cases white : Unicode.isWhiteSpace char with
  | true =>
    rw [first_blank white] at read
    cases read
    exact white
  | false =>
    unfold first at read
    simp only [white, Bool.false_eq_true, if_false] at read
    split at read
    · cases read
    split at read
    · simp only [ofNumeral] at read
      split at read <;> cases read
    split at read
    · simp only [ofWord] at read
      split at read <;> cases read
    split at read
    · simp only [firstEnclosed] at read
      split at read <;> cases read
    · simp only [firstSymbol] at read
      split at read
      · cases read
      · split at read <;> cases read

section Source

variable {source : String}

/-- A token of a source that is not the end of the input is that of a piece. -/
theorem Piece.exists_of_mem_source {token : Token}
    (member : token ∈ allTokens .start (all source.toList)) :
    ∃ front kind spelling fault behind,
      all source.toList = front ++ Piece.token kind spelling fault :: behind ∧
        token = Token.place kind (Position.start.advanceAll (text front)) spelling ∧
        kind ≠ .endOfInput ∧ spelling ≠ [] := by
  obtain ⟨front, piece, behind, cut, placed⟩ := exists_of_mem_allTokens member
  have isPiece : piece ∈ all source.toList := by simp [cut]
  have nonempty := spelling_ne_nil_of_mem_all isPiece
  obtain ⟨char, chars, same⟩ := eq_first_of_mem_all isPiece
  cases piece with
  | token kind spelling fault =>
    cases placed
    exact ⟨front, kind, spelling, fault, behind, cut, rfl, kind_ne_endOfInput same.symm, nonempty⟩
  | _ => cases placed

/-- A token that is not the end of the input covers something. -/
theorem Piece.start_lt_stop {token : Token}
    (member : token ∈ allTokens .start (all source.toList)) :
    token.span.start < token.span.stop := by
  obtain ⟨front, kind, spelling, fault, behind, cut, rfl, notEnd, some⟩ :=
    exists_of_mem_source member
  have bytes := byteLength_pos some
  simp only [Token.place]
  omega

/-- It ends within the source. -/
theorem Piece.stop_le_byteLength {token : Token}
    (member : token ∈ allTokens .start (all source.toList)) :
    token.span.stop ≤ byteLength source.toList := by
  have bound := (within_of_mem_allTokens member).2
  rw [text, spellings] at bound
  simpa [Position.start] using bound

/-- The end of the input covers nothing. -/
theorem span_atEnd (source : String) :
    (Token.atEnd (Position.start.advanceAll source.toList)).span =
      ⟨byteLength source.toList, byteLength source.toList⟩ := by
  simp [Token.atEnd, Token.place, Position.start]

theorem pairwise_tokenize (source : String) :
    (tokenize source).Pairwise fun first second =>
      first.span.start < second.span.start ∧ first.span.stop ≤ second.span.start := by
  have filled : ∀ piece ∈ Piece.all source.toList, piece.spelling ≠ [] :=
    fun _ member => Piece.spelling_ne_nil_of_mem_all member
  rw [tokenize_eq]
  refine List.pairwise_append.mpr ⟨Piece.pairwise_allTokens filled, List.pairwise_singleton _ _,
    fun token member last isLast => ?_⟩
  obtain rfl := List.mem_singleton.mp isLast
  have bound := Piece.stop_le_byteLength member
  rw [span_atEnd]
  exact ⟨Nat.lt_of_lt_of_le (Piece.start_lt_stop member) bound, bound⟩

/-- The span of a token covers what the token was read from. -/
theorem slice?_of_mem_tokenize {token : Token} (member : token ∈ tokenize source) :
    token.span.slice? source.toList = some token.spelling.toList := by
  rw [tokenize_eq] at member
  rcases List.mem_append.mp member with own | isLast
  · obtain ⟨front, kind, spelling, fault, behind, cut, rfl, _, _⟩ :=
      Piece.exists_of_mem_source own
    have split : source.toList = Piece.text front ++ (spelling ++ Piece.text behind) := by
      have pieces := Piece.spellings source.toList
      rw [cut] at pieces
      rw [← pieces]
      simp [Piece.text, Piece.spelling]
    have fits := Span.slice?_append (Piece.text front) spelling (Piece.text behind)
    rw [split]
    simpa [Token.place, Position.start] using fits
  · obtain rfl := List.mem_singleton.mp isLast
    have fits := Span.slice?_append source.toList [] []
    rw [span_atEnd]
    simpa [Token.atEnd, Token.place] using fits

/-- The token that contains a character is the token of the piece that the character belongs
to. -/
theorem contains_tokenize_iff {front behind : List Piece} {piece : Piece}
    {inner outer : List Char} {char : Char}
    (cut : Piece.all source.toList = front ++ piece :: behind)
    (spelled : piece.spelling = inner ++ char :: outer) (token : Token) :
    (token ∈ tokenize source ∧ token.span.Contains (Piece.text front ++ inner) char) ↔
      piece.token? (Position.start.advanceAll (Piece.text front)) = some token := by
  have bytes : 0 < char.utf8Size := char.utf8Size_pos
  rw [tokenize_eq, ← Piece.contains_iff_of_piece behind spelled rfl, ← cut,
    List.mem_append, List.mem_singleton]
  refine ⟨?_, fun both => ⟨.inl both.1, both.2⟩⟩
  rintro ⟨own | rfl, contained⟩
  · exact ⟨own, contained⟩
  · have inside : byteLength (Piece.text front ++ inner) + char.utf8Size ≤
        byteLength source.toList := by
      have pieces := Piece.spellings source.toList
      rw [cut] at pieces
      rw [← pieces]
      simp [Piece.text, spelled]
      omega
    rw [span_atEnd] at contained
    simp only [Span.Contains] at contained
    omega

/-- **Every character is accounted for.** -/
theorem accounted_tokenize {before after : List Char} {char : Char}
    (split : source.toList = before ++ char :: after) :
    (∃! token, token ∈ tokenize source ∧ token.span.Contains before char) ∨
      ((∀ token ∈ tokenize source, ¬token.span.Contains before char) ∧
        (Unicode.isWhiteSpace char = true ∨
          Diagnostic.error .lexical (LexicalFault.unexpectedCharacter char).message
            (Position.start.advanceAll before) ∈ lexicalDiagnostics source)) := by
  have whole : Piece.text (Piece.all source.toList) = source.toList := Piece.spellings _
  obtain ⟨front, piece, behind, inner, outer, cut, spelled, rfl⟩ :=
    Piece.exists_piece_of_char (whole.trans split)
  have covers := contains_tokenize_iff cut spelled
  have isPiece : piece ∈ Piece.all source.toList := by simp [cut]
  obtain ⟨first, chars, same⟩ := Piece.eq_first_of_mem_all isPiece
  cases piece with
  | token kind spelling fault =>
    refine .inl ⟨_, (covers _).mpr rfl, fun other contained => ?_⟩
    exact (Option.some.inj ((covers other).mp contained)).symm
  | blank found =>
    obtain ⟨rfl, rfl, rfl⟩ : inner = [] ∧ found = char ∧ outer = [] := by
      simpa [Piece.spelling, List.append_eq_cons_iff, eq_comm] using spelled
    refine .inr ⟨fun token member contained => ?_, .inl (Piece.isWhiteSpace_of_blank same.symm)⟩
    cases (covers token).mp ⟨member, contained⟩
  | stray found =>
    obtain ⟨rfl, rfl, rfl⟩ : inner = [] ∧ found = char ∧ outer = [] := by
      simpa [Piece.spelling, List.append_eq_cons_iff, eq_comm] using spelled
    refine .inr ⟨fun token member contained => ?_, .inr ?_⟩
    · cases (covers token).mp ⟨member, contained⟩
    · rw [List.append_nil]
      exact Piece.mem_lexicalDiagnostics cut (.head _)

end Source

/-- **Cutting a source into tokens loses nothing**, whatever the source is. -/
theorem tokenize_lossless (source : String) :
    Lossless source (tokenize source) (lexicalDiagnostics source) where
  ends := by
    refine ⟨_, _, tokenize_eq source, rfl, span_atEnd source, fun token member => ⟨?_, ?_⟩⟩
    · obtain ⟨_, _, _, _, _, _, rfl, notEnd, _⟩ := Piece.exists_of_mem_source member
      exact notEnd
    · exact Piece.start_lt_stop member
  ordered := pairwise_tokenize source
  fitting _ member := slice?_of_mem_tokenize member
  accounted _ _ _ split := accounted_tokenize split

end DaxScript
