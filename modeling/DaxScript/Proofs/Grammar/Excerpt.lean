import DaxScript.Proofs.Grammar.Spans
import DaxScript.Proofs.Text.Span
import DaxScript.Proofs.Token.Relocation
import DaxScript.Proofs.Token.Spelling

/-!
# Parts of a source that stand for tokens

Tokens that follow each other stand on pieces that follow each other, and a span over these tokens
is the span of these pieces (`Piece.tokens_segment`).  If nothing is wrong with the pieces and the
last token ends an operand, the part of the source is cut into the same pieces by itself
(`Piece.all_within`).

Such a part is an excerpt (`Excerpt`).  Its text begins with its first token and ends with its
last one, and by itself it has the same tokens, counted from its start.
-/

set_option autoImplicit false

namespace DaxScript

/-! ## Parts of a source -/

namespace Piece

/-- The token of a piece covers the piece. -/
theorem span_of_ownTokens {piece : Piece} {position : Position} {token : Token}
    (single : piece.ownTokens position = [token]) :
    token.span = ⟨position.offset, position.offset + byteLength piece.spelling⟩ := by
  have member : token ∈ piece.ownTokens position := by simp [single]
  rw [eq_place_of_token? (mem_ownTokens_iff.mp member).1]
  rfl

/-- **Tokens that follow each other cut the pieces as they cut the tokens**: they belong to pieces
that follow each other, the first and the last of which are the first and the last of the tokens. -/
theorem tokens_cut {position : Position} {pieces : List Piece} {before own after : List Token}
    {span : Span} (cut : tokens position pieces = before ++ (own ++ after))
    (covered : span.Covers own) :
    ∃ front middle behind, pieces = front ++ (middle ++ behind) ∧
      tokens (position.advanceAll (text front)) middle = own ∧
      tokens (position.advanceAll (text (front ++ middle))) behind = after ∧
      span = ⟨position.offset + byteLength (text front),
        position.offset + byteLength (text front) + byteLength (text middle)⟩ ∧
      (∃ piece later token, middle = piece :: later ∧
        piece.ownTokens (position.advanceAll (text front)) = [token]) ∧
      ∃ earlier last place token, middle = earlier ++ [last] ∧ last.ownTokens place = [token] ∧
        own.getLast? = some token := by
  obtain ⟨first, last, head, lastOwn, rfl⟩ := covered
  obtain ⟨others, rfl⟩ : ∃ others, own = first :: others := by
    cases own with
    | nil => cases head
    | cons _ others =>
      cases head
      exact ⟨others, rfl⟩
  obtain ⟨front, piece, behind, rfl, sameBefore, isFirst, rest⟩ := tokens_eq_append cut
  have firstSpan := span_of_ownTokens isFirst
  rw [Position.offset_advanceAll] at firstSpan
  rcases List.eq_nil_or_concat others with rfl | ⟨inner, token, same⟩
  · obtain rfl : first = last := Option.some.inj lastOwn
    refine ⟨front, [piece], behind, rfl, ?_, rest, ?_, ⟨piece, [], first, rfl, isFirst⟩,
      [], piece, _, first, rfl, isFirst, rfl⟩
    · rw [tokens, isFirst]
      rfl
    · rw [firstSpan, text_cons, text_nil, List.append_nil]
  · rw [List.concat_eq_append] at same
    subst same
    have isLast : (first :: inner ++ [token]).getLast? = some token := List.getLast?_concat
    obtain rfl : token = last := Option.some.inj (isLast.symm.trans lastOwn)
    have rest : tokens (position.advanceAll (text (front ++ [piece]))) behind =
        inner ++ token :: after := by
      rw [rest]
      simp
    obtain ⟨front', piece', behind', rfl, sameInner, isLast, sameAfter⟩ := tokens_eq_append rest
    have lastSpan := span_of_ownTokens isLast
    simp only [Position.offset_advanceAll] at lastSpan
    refine ⟨front, piece :: (front' ++ [piece']), behind', by simp, ?_, ?_, ?_,
      ⟨piece, _, first, rfl, isFirst⟩, piece :: front', piece', _, token, rfl, isLast, lastOwn⟩
    · have sameInner' : tokens ((position.advanceAll (text front)).advanceAll piece.spelling)
          front' = inner := by
        rwa [text_append, text_cons, text_nil, List.append_nil, Position.advanceAll_append]
          at sameInner
      have isLast' : piece'.ownTokens (((position.advanceAll (text front)).advanceAll
          piece.spelling).advanceAll (text front')) = [token] := by
        rwa [text_append, text_cons, text_nil, List.append_nil, Position.advanceAll_append]
          at isLast
      rw [tokens, isFirst, tokens_append, sameInner', tokens, isLast']
      rfl
    · rw [← sameAfter, ← Position.advanceAll_append, ← text_append]
      simp
    · rw [firstSpan, lastSpan]
      simp only [text_append, text_cons, text_nil, byteLength_append, byteLength_nil, Span.mk.injEq,
        true_and]
      omega

/-- The pieces in the middle, by themselves. -/
theorem tokens_segment {position : Position} {pieces : List Piece} {before own after : List Token}
    {span : Span} (cut : tokens position pieces = before ++ (own ++ after))
    (covered : span.Covers own) :
    ∃ front middle behind, pieces = front ++ (middle ++ behind) ∧
      tokens (position.advanceAll (text front)) middle = own ∧
      span = ⟨position.offset + byteLength (text front),
        position.offset + byteLength (text front) + byteLength (text middle)⟩ ∧
      ∃ earlier last place token, middle = earlier ++ [last] ∧ last.ownTokens place = [token] ∧
        own.getLast? = some token := by
  obtain ⟨front, middle, behind, split, same, _, bounds, _, last⟩ := tokens_cut cut covered
  exact ⟨front, middle, behind, split, same, bounds, last⟩

/-- The only piece that is written as a point alone is the sign. -/
theorem eq_dot_of_spelling {char : Char} {chars rest : List Char} {piece : Piece}
    (read : first char chars = (piece, rest)) (point : piece.spelling = ['.']) :
    piece = token (.symbol .dot) ['.'] none := by
  obtain ⟨rfl, rfl⟩ : char = '.' ∧ rest = chars := by
    have whole := spelling_first char chars
    rw [read, point] at whole
    obtain ⟨sameChar, sameRest⟩ := List.cons.inj whole
    exact ⟨sameChar.symm, sameRest⟩
  have white : Unicode.isWhiteSpace '.' = false := by decide
  have noComment : rest.head?.any (opensComment '.') = false := by
    cases rest <;> rfl
  have noWord : isWordStart '.' = false := by decide
  cases numeral : startsNumeral '.' rest with
  | true =>
    rw [first_numeral white noComment numeral] at read
    have stops := head?_splitNumeral ('.' :: rest)
    rw [(Prod.mk.inj read).2] at stops
    have digit : rest.head?.any Char.isDigit = true := numeral
    rw [stops] at digit
    cases digit
  | false =>
    have noDouble : rest.head?.bind (doubleSymbol? '.') = none := by
      cases rest <;> rfl
    rw [first_symbol white noComment numeral noWord rfl, firstSymbol, noDouble] at read
    exact (Prod.mk.inj read).1.symm

/-- A piece with a token that ends an operand is no point. -/
theorem spelling_ne_point {piece : Piece} {chars : List Char} {position : Position} {token : Token}
    (member : piece ∈ all chars) (single : piece.ownTokens position = [token])
    (ends : Rule.endsOperand token.kind = true) :
    piece.spelling ≠ ['.'] := by
  intro point
  obtain ⟨char, later, same⟩ := eq_first_of_mem_all member
  have read : first char later = (piece, (first char later).2) := by rw [same]
  rw [eq_dot_of_spelling read point] at single
  cases single
  cases ends

end Piece

/-- The pieces of a part of a source are the pieces of the part, if nothing is wrong with them and
they end with an operand. -/
theorem Piece.all_within {source : List Char} {front middle behind : List Piece}
    (cut : Piece.all source = front ++ (middle ++ behind))
    (sound : ∀ piece ∈ middle, piece.fault? = none) {earlier : List Piece} {last : Piece}
    {position : Position} {token : Token} (ending : middle = earlier ++ [last])
    (single : last.ownTokens position = [token]) (ends : Rule.endsOperand token.kind = true) :
    Piece.all (Piece.text middle) = middle := by
  refine Piece.all_cut sound ?_ (Piece.all_drop cut)
  intro earlier' last' same
  obtain ⟨_, sameLast⟩ := List.append_inj' (ending.symm.trans same) rfl
  obtain rfl : last = last' := List.head_eq_of_cons_eq sameLast
  have isPiece : last ∈ Piece.all source := by simp [cut, ending]
  exact Piece.spelling_ne_point isPiece single ends

/-! ## Excerpts -/

/-- A part of a source that stands for some tokens, without faults and cut into the same pieces by
itself. -/
structure Excerpt (source : List Char) (own : List Token) where
  front : List Char
  pieces : List Piece
  behind : List Char
  split : source = front ++ (Piece.text pieces ++ behind)
  alone : Piece.all (Piece.text pieces) = pieces
  sound : ∀ piece ∈ pieces, piece.fault? = none
  tokens : Piece.tokens (Position.start.advanceAll front) pieces = own
  /-- The part reaches from the first of the tokens to the last. -/
  covered : Span.Covers ⟨byteLength front, byteLength front + byteLength (Piece.text pieces)⟩ own

/-- The characters of the part. -/
def Excerpt.text {source : List Char} {own : List Token} (excerpt : Excerpt source own) :
    List Char :=
  Piece.text excerpt.pieces

/-- The bytes of the part. -/
def Excerpt.span {source : List Char} {own : List Token} (excerpt : Excerpt source own) : Span :=
  ⟨byteLength excerpt.front, byteLength excerpt.front + byteLength excerpt.text⟩

/-- **Tokens of a source without faults stand on an excerpt**, if the last of them ends an
operand. -/
theorem exists_excerpt {source : List Char} {front behind : List Piece}
    (cut : Piece.all source = front ++ behind) (sound : ∀ piece ∈ front, piece.fault? = none)
    {before own after : List Token} {span : Span}
    (placed : Piece.tokens .start front = before ++ (own ++ after)) (covered : span.Covers own)
    (ends : ∀ token ∈ own.getLast?, Rule.endsOperand token.kind = true) :
    ∃ excerpt : Excerpt source own, excerpt.span = span := by
  obtain ⟨inFront, middle, isBehind, rfl, middleTokens, same, earlier, last, place, token, ending,
    single, isLast⟩ := Piece.tokens_segment placed covered
  have same : span = ⟨byteLength (Piece.text inFront),
      byteLength (Piece.text inFront) + byteLength (Piece.text middle)⟩ := by
    rw [same]
    simp [Position.start]
  have soundMiddle (piece : Piece) (member : piece ∈ middle) : piece.fault? = none :=
    sound piece (List.mem_append_right _ (List.mem_append_left _ member))
  have cut : Piece.all source = inFront ++ (middle ++ (isBehind ++ behind)) := by
    rw [cut, List.append_assoc, List.append_assoc]
  have split : source =
      Piece.text inFront ++ (Piece.text middle ++ Piece.text (isBehind ++ behind)) := by
    rw [← Piece.text_append, ← Piece.text_append, ← cut]
    exact (Piece.spellings source).symm
  have alone := Piece.all_within cut soundMiddle ending single (ends token isLast)
  exact ⟨⟨_, _, _, split, alone, soundMiddle, middleTokens, same ▸ covered⟩, same.symm⟩

namespace Excerpt

variable {source : List Char} {own : List Token} (excerpt : Excerpt source own)

theorem slice?_span : excerpt.span.slice? source = some excerpt.text := by
  have split := excerpt.split
  have fits := Span.slice?_append excerpt.front excerpt.text excerpt.behind
  rwa [text, ← split] at fits

theorem slice_span : excerpt.span.slice source = excerpt.text := by
  rw [Span.slice, excerpt.slice?_span]
  rfl

theorem mem_all {piece : Piece} (member : piece ∈ excerpt.pieces) :
    piece ∈ Piece.all excerpt.text := by
  rwa [text, excerpt.alone]

theorem byteLength_spelling_pos {piece : Piece} (member : piece ∈ excerpt.pieces) :
    0 < byteLength piece.spelling :=
  byteLength_pos (Piece.spelling_ne_nil_of_mem_all (excerpt.mem_all member))

/-- By itself the part has the same tokens, counted from its start. -/
theorem map_tokens :
    (Piece.tokens .start (Piece.all excerpt.text)).map
      (Relocation.startingAt (Position.start.advanceAll excerpt.front)).token = own := by
  have follows := Relocation.follows_startingAt (Position.start.advanceAll excerpt.front)
  rw [text, excerpt.alone, follows.tokens, Relocation.startingAt_start, excerpt.tokens]

/-- The first piece is the first token. -/
theorem exists_first {first : Token} {others : List Token} (same : own = first :: others) :
    ∃ piece later, excerpt.pieces = piece :: later ∧
      piece.ownTokens (Position.start.advanceAll excerpt.front) = [first] := by
  obtain ⟨opening, _, head, _, bounds⟩ := excerpt.covered
  subst same
  obtain rfl : first = opening := Option.some.inj head
  have starts : byteLength excerpt.front = first.span.start := (Span.mk.inj bounds).1
  have isToken := excerpt.tokens
  cases pieces : excerpt.pieces with
  | nil =>
    rw [pieces] at isToken
    cases isToken
  | cons piece later =>
    refine ⟨piece, later, rfl, ?_⟩
    rw [pieces, Piece.tokens] at isToken
    rcases Piece.ownTokens_cases piece (Position.start.advanceAll excerpt.front) with
      none | ⟨token, single⟩
    · -- Then the first token would stand behind the first piece.
      rw [none, List.nil_append] at isToken
      have isLater : first ∈ Piece.tokens
          ((Position.start.advanceAll excerpt.front).advanceAll piece.spelling) later := by
        rw [isToken]
        exact List.mem_cons_self ..
      have bound := (Piece.within_of_mem_tokens isLater).1
      have bytes := excerpt.byteLength_spelling_pos (by simp [pieces] : piece ∈ excerpt.pieces)
      simp only [Position.offset_advanceAll, Position.start] at bound
      omega
    · rw [single] at isToken
      rw [single, (List.cons.inj isToken).1]

/-- The last piece is the last token. -/
theorem exists_last {last : Token} (isLast : own.getLast? = some last) :
    ∃ earlier piece position, excerpt.pieces = earlier ++ [piece] ∧
      piece.ownTokens position = [last] := by
  obtain ⟨_, closing, _, found, bounds⟩ := excerpt.covered
  obtain rfl : last = closing := Option.some.inj (isLast.symm.trans found)
  have stops : byteLength excerpt.front + byteLength (Piece.text excerpt.pieces) =
      last.span.stop := (Span.mk.inj bounds).2
  have isToken := excerpt.tokens
  rcases List.eq_nil_or_concat excerpt.pieces with pieces | ⟨earlier, piece, pieces⟩
  · rw [pieces] at isToken
    rw [← isToken] at isLast
    cases isLast
  · rw [List.concat_eq_append] at pieces
    let place := (Position.start.advanceAll excerpt.front).advanceAll (Piece.text earlier)
    refine ⟨earlier, piece, place, pieces, ?_⟩
    rw [pieces, Piece.tokens_append, Piece.tokens, Piece.tokens, List.append_nil] at isToken
    rcases Piece.ownTokens_cases piece place with none | ⟨token, single⟩
    · -- Then the last token would stand in front of the last piece.
      rw [none, List.append_nil] at isToken
      have isEarlier : last ∈ Piece.tokens (Position.start.advanceAll excerpt.front) earlier := by
        rw [isToken]
        exact List.mem_of_getLast? isLast
      have bound := (Piece.within_of_mem_tokens isEarlier).2.2
      have bytes := excerpt.byteLength_spelling_pos (by simp [pieces] : piece ∈ excerpt.pieces)
      rw [pieces, Piece.text_append, byteLength_append, Piece.text_cons, byteLength_append] at stops
      simp only [Position.offset_advanceAll, Position.start] at bound
      omega
    · rw [single] at isToken
      rw [← isToken, List.getLast?_concat] at isLast
      rw [single, Option.some.inj isLast]

/-- A token of the part is written as what it says. -/
theorem isWritten {piece : Piece} (member : piece ∈ excerpt.pieces) {position : Position}
    {token : Token} (isToken : token ∈ piece.ownTokens position) :
    token.kind.IsWritten piece.spelling := by
  obtain ⟨placed, meaning⟩ := Piece.mem_ownTokens_iff.mp isToken
  obtain ⟨char, chars, read⟩ := Piece.eq_first_of_mem_all (excerpt.mem_all member)
  have sound := excerpt.sound piece member
  cases piece with
  | token kind spelling fault =>
    cases placed
    cases sound
    exact Piece.isWritten_of_first read.symm meaning
  | _ => cases placed

include excerpt in
theorem isWritten_of_mem {token : Token} (member : token ∈ own) :
    token.kind.IsWritten token.spelling.toList := by
  have sound (piece : Piece) (isPiece : piece ∈ Piece.all excerpt.text) : piece.fault? = none := by
    rw [text, excerpt.alone] at isPiece
    exact excerpt.sound piece isPiece
  apply Piece.isWritten_of_mem_tokens sound
  rwa [text, excerpt.alone, excerpt.tokens]

/-- **No white space stands at either end of the part.** -/
theorem tight : Tight excerpt.text := by
  obtain ⟨first, last, head, isLast, _⟩ := excerpt.covered
  obtain ⟨others, same⟩ : ∃ others, own = first :: others := List.head?_eq_some_iff.mp head
  obtain ⟨opening, later, pieces, isFirst⟩ := excerpt.exists_first same
  obtain ⟨earlier, closing, _, pieces', isLast⟩ := excerpt.exists_last isLast
  have opens : opening ∈ excerpt.pieces := by simp [pieces]
  have closes : closing ∈ excerpt.pieces := by simp [pieces']
  have tightFirst := (excerpt.isWritten opens (by rw [isFirst]; exact .head _)).tight
  have tightLast := (excerpt.isWritten closes (by rw [isLast]; exact .head _)).tight
  refine tightFirst.of_ends tightLast (Piece.spelling_ne_nil_of_mem_all (excerpt.mem_all opens))
    (Piece.spelling_ne_nil_of_mem_all (excerpt.mem_all closes)) ?_ ?_
  · exact ⟨Piece.text later, by rw [text, pieces, Piece.text_cons]⟩
  · exact ⟨Piece.text earlier, by rw [text, pieces', Piece.text_append]; simp⟩

/-- There is nothing to trim about the part. -/
theorem trim_slice {span : Span} (same : excerpt.span = span) :
    trim (span.slice source) = excerpt.text := by
  rw [← same, excerpt.slice_span, excerpt.tight.trim_eq]

theorem text_ne_nil : excerpt.text ≠ [] := by
  obtain ⟨first, _, head, _, _⟩ := excerpt.covered
  obtain ⟨others, same⟩ : ∃ others, own = first :: others := List.head?_eq_some_iff.mp head
  obtain ⟨opening, later, pieces, _⟩ := excerpt.exists_first same
  have opens : opening ∈ excerpt.pieces := by simp [pieces]
  have some := Piece.spelling_ne_nil_of_mem_all (excerpt.mem_all opens)
  rw [text, pieces, Piece.text_cons]
  exact List.append_ne_nil_of_left_ne_nil some _

/-- Of two excerpts that end in the same place the one that begins later is the end of the
other. -/
theorem text_suffix {inner : List Token} (later : Excerpt source inner)
    (starts : excerpt.span.start ≤ later.span.start) (stops : excerpt.span.stop = later.span.stop) :
    later.text <:+ excerpt.text := by
  have same := excerpt.split.symm.trans later.split
  simp only [span, text] at starts stops ⊢
  rcases List.append_eq_append_iff.mp same with ⟨more, inFront, rest⟩ | ⟨more, inFront, rest⟩
  · rw [← List.append_assoc] at rest
    have bytes : byteLength (Piece.text excerpt.pieces) =
        byteLength (more ++ Piece.text later.pieces) := by
      rw [inFront, byteLength_append] at stops
      rw [byteLength_append]
      omega
    exact ⟨more, (append_inj_of_byteLength rest bytes).1.symm⟩
  · have none : more = [] := by
      by_contra some
      have bytes := byteLength_pos some
      rw [inFront, byteLength_append] at starts
      omega
    rw [none, List.nil_append] at rest
    rw [none, List.append_nil] at inFront
    have bytes : byteLength (Piece.text later.pieces) =
        byteLength (Piece.text excerpt.pieces) := by
      rw [inFront] at stops
      omega
    exact ⟨[], (append_inj_of_byteLength rest bytes).1⟩

end Excerpt

end DaxScript
