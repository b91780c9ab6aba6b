import DaxScript.Proofs.Token.Insertion

/-!
# Other words in the place of a word

A word of a text may be written as another word, and the text is cut into the same pieces as before,
apart from the word (`Piece.all_respelled`).  A piece in front of a word goes on with no word, so
which word begins behind it makes no difference (`Piece.fits_inFront`), and a word ends where no
word goes on.

Nothing is asked of the text behind the word.  The text in front must have no faults: an enclosed
text that is never closed goes on to the end of its line, whatever stands there.
-/

set_option autoImplicit false

namespace DaxScript

/-- The text with another text in the place of a span.  There is none when the span does not fit the
text. -/
def Span.replace? (span : Span) (other chars : List Char) : Option (List Char) :=
  if span.start ≤ span.stop then do
    let inFront ← splitAtByte? span.start chars
    let covered ← splitAtByte? span.length inFront.2
    some (inFront.1 ++ (other ++ covered.2))
  else none

theorem Span.replace?_append (before covered after other : List Char) :
    (Span.mk (byteLength before) (byteLength before + byteLength covered)).replace? other
      (before ++ (covered ++ after)) = some (before ++ (other ++ after)) := by
  simp only [replace?, length, Nat.le_add_right, if_true, Nat.add_sub_cancel_left,
    splitAtByte?_append, Option.bind_eq_bind, Option.bind_some]

/-- A span from where another one starts. -/
def Span.relativeTo (span outer : Span) : Span :=
  ⟨span.start - outer.start, span.stop - outer.start⟩

/-- Whether a token is a word: a name that is not quoted, or a keyword. -/
def TokenKind.isWord : TokenKind → Bool
  | identifier _ | keyword _ => true
  | _ => false

namespace Piece

/-! ## In front of words -/

/-- What no word begins with, a text that begins with a word does not begin with. -/
theorem head?_any_of_isWordStart {chars : List Char} (word : chars.head?.any isWordStart = true)
    {belongs : Char → Bool} (none : ∀ char, isWordStart char = true → belongs char = false) :
    chars.head?.any belongs = false := by
  cases chars with
  | nil => rfl
  | cons char chars => exact none char word

/-- No word begins with a digit. -/
theorem head?_isDigit_of_isWordStart {chars : List Char}
    (word : chars.head?.any isWordStart = true) : chars.head?.any Char.isDigit = false :=
  head?_any_of_isWordStart word fun _ starts => Bool.eq_false_iff.mpr fun digit =>
    Bool.eq_false_iff.mp (isWordStart_eq_false_of_isDigit digit) starts

/-- No word begins with a given character that begins none. -/
theorem head?_beq_of_isWordStart {chars : List Char} (word : chars.head?.any isWordStart = true)
    {char : Char} (noWord : isWordStart char = false) : chars.head?.any (· == char) = false := by
  refine head?_any_of_isWordStart word fun first starts => beq_eq_false_iff_ne.mpr ?_
  rintro rfl
  exact absurd starts (by simp [noWord])

/-- A sign in front of a word is a sign in front of any word. -/
theorem fits_symbol_of_isWordStart (sign : Symbol) {rest : List Char}
    (word : rest.head?.any isWordStart = true) : (ofSymbol sign).Fits rest := by
  have noDigit := head?_isDigit_of_isWordStart word
  have noDouble (char : Char) : rest.head?.bind (doubleSymbol? char) = none := by
    cases rest with
    | nil => rfl
    | cons next rest =>
      have starts : isWordStart next = true := word
      show doubleSymbol? char next = none
      unfold doubleSymbol?
      split
      all_goals first | rfl | exact absurd starts (by decide)
  have noComment (char : Char) : rest.head?.any (opensComment char) = false := by
    refine head?_any_of_isWordStart word fun next starts => Bool.eq_false_iff.mpr fun opens => ?_
    obtain rfl := eq_of_opensComment opens
    simp only [opensComment, beq_self_eq_true, Bool.and_true, Bool.or_eq_true, beq_iff_eq] at opens
    rcases opens with rfl | rfl <;> exact absurd starts (by decide)
  rcases spelling_cases sign with
    ⟨char, written, begins, single⟩ | ⟨char, second, written, begins, double, opensNot, noPoint⟩
  · exact fits_single begins written single (noComment char) (fun _ => noDigit) (noDouble char)
  · exact fits_double begins written double opensNot noPoint rest

/-- A numeral in front of a word ends there in front of any word. -/
theorem splitNumeral_of_isWordStart {chars other : List Char}
    (wasWord : (splitNumeral chars).2.head?.any isWordStart = true)
    (word : other.head?.any isWordStart = true) :
    splitNumeral ((splitNumeral chars).1 ++ other) = ((splitNumeral chars).1, other) := by
  have noDigit := head?_isDigit_of_isWordStart word
  rcases splitNumeral_cases chars with
    ⟨whole, fraction, rest, rfl, digits, places, stops, noWord⟩ |
    ⟨whole, rest, rfl, digits, stops, noPoint⟩
  · rw [splitNumeral_point digits places stops noWord] at wasWord ⊢
    rw [List.append_assoc, List.cons_append]
    refine splitNumeral_point digits places noDigit ?_
    cases fraction with
    | nil => exact absurd (noWord.symm.trans wasWord) Bool.false_ne_true
    | cons => exact noWord
  · rw [splitNumeral_whole digits stops noPoint]
    refine splitNumeral_whole digits noDigit fun later same => ?_
    subst same
    have isPoint : isWordStart '.' = true := word
    exact absurd isPoint (by decide)

/-- A numeral in front of a word fits in front of any word. -/
theorem fits_ofNumeral {char : Char} {chars other : List Char}
    (numeral : startsNumeral char chars = true)
    (wasWord : (splitNumeral (char :: chars)).2.head?.any isWordStart = true)
    (word : other.head?.any isWordStart = true) :
    (ofNumeral (splitNumeral (char :: chars)).1).Fits other := by
  obtain ⟨tail, same⟩ := splitNumeral_fst_of_starts numeral
  have split := splitNumeral_append (char :: chars)
  have again := splitNumeral_of_isWordStart wasWord word
  have stops := head?_isDigit_of_isWordStart wasWord
  rw [same] at split again ⊢
  rw [List.cons_append] at split again
  have starts : startsNumeral char (tail ++ other) = true :=
    startsNumeral_of_append numeral (List.cons.inj split).2 stops
  have part : isWordPart char = true := by
    simp only [startsNumeral, Bool.or_eq_true, Bool.and_eq_true, beq_iff_eq] at numeral
    rcases numeral with digit | ⟨rfl, _⟩
    · exact isWordPart_of_isDigit digit
    · decide
  refine ⟨char, tail, spelling_ofNumeral _, ?_⟩
  rw [first_numeral (isWhiteSpace_of_isWordPart part) (head?_opensComment_of_isWordPart part _)
    starts, again]

/-- No word begins with the end of a line. -/
theorem isLineEnd_eq_false_of_isWordStart {char : Char} (starts : isWordStart char = true) :
    isLineEnd char = false := by
  refine Bool.eq_false_iff.mpr fun ends => ?_
  rw [isLineEnd, Bool.or_eq_true, beq_iff_eq, beq_iff_eq] at ends
  rcases ends with rfl | rfl <;> exact absurd starts (by decide)

/-- **A piece without faults in front of a word fits in front of any word.** -/
theorem fits_inFront {char : Char} {chars rest other : List Char} {piece : Piece}
    (read : first char chars = (piece, rest)) (sound : piece.fault? = none)
    (wasWord : rest.head?.any isWordStart = true) (word : other.head?.any isWordStart = true) :
    piece.Fits other := by
  -- What stops in front of the text behind the piece is nothing that a word begins with.
  have noPart {belongs : Char → Bool} {later : List Char} (same : rest = later.dropWhile belongs)
      (all : ∀ first, isWordStart first = true → belongs first = true) : False := by
    have stops := head?_dropWhile_any belongs later
    rw [← same] at stops
    cases rest with
    | nil => cases wasWord
    | cons first rest => exact absurd (all first wasWord) (Bool.eq_false_iff.mp stops)
  cases white : Unicode.isWhiteSpace char with
  | true =>
    rw [first_blank white] at read
    cases read
    exact fits_blank white other
  | false =>
  cases opens : chars.head?.any (opensComment char) with
  | true =>
    rw [first_comment white opens] at read
    exact (noPart (Prod.mk.inj read).2.symm fun first starts => by
      rw [isLineEnd_eq_false_of_isWordStart starts]
      rfl).elim
  | false =>
  cases numeral : startsNumeral char chars with
  | true =>
    rw [first_numeral white opens numeral] at read
    obtain ⟨rfl, rfl⟩ := Prod.mk.inj read
    exact fits_ofNumeral numeral wasWord word
  | false =>
  cases isWord : isWordStart char with
  | true =>
    rw [first_word white opens numeral isWord] at read
    exact (noPart (Prod.mk.inj read).2.symm fun _ => isWordPart_of_isWordStart).elim
  | false =>
  cases opener : Enclosure.ofOpener? char with
  | some enclosure =>
    rw [first_enclosed white opens numeral isWord opener] at read
    obtain rfl := opener_of_ofOpener? opener
    simp only [firstEnclosed] at read
    split at read
    · next closed found =>
      cases read
      have single : enclosure.doubles = true → other.head?.any (· == enclosure.closer) = false :=
        fun _ => head?_beq_of_isWordStart word (by cases enclosure <;> decide)
      refine ⟨enclosure.opener, closed.spelling, rfl, ?_⟩
      rw [first_opener, firstEnclosed, Enclosure.close?_exchange found single]
    · cases read
      cases sound
  | none =>
    rw [first_symbol white opens numeral isWord opener] at read
    simp only [firstSymbol] at read
    split at read
    · next sign double =>
      cases chars with
      | nil => cases double
      | cons second later =>
        cases read
        have written := spelling_of_doubleSymbol? double
        rw [List.take_succ_cons, List.take_zero, ← written]
        exact fits_symbol_of_isWordStart sign word
    · split at read
      · next sign single =>
        cases read
        rw [← spelling_of_singleSymbol? single]
        exact fits_symbol_of_isWordStart sign word
      · cases read
        cases sound

/-! ## Words -/

/-- What is read as a word is a word, and no word goes on behind it. -/
theorem eq_ofWord_of_first {char : Char} {chars spelling rest : List Char} {kind : TokenKind}
    {fault : Option LexicalFault} (read : first char chars = (token kind spelling fault, rest))
    (word : kind.isWord = true) :
    token kind spelling fault = ofWord spelling ∧ isWord spelling = true ∧
      rest.head?.any isWordPart = false := by
  unfold first at read
  split at read
  · cases read
  split at read
  · cases read
    cases word
  split at read
  · simp only [ofNumeral] at read
    split at read <;> cases read <;> cases word
  split at read
  · next starts =>
    obtain ⟨same, rfl⟩ := Prod.mk.inj read
    have spelled := spelling_ofWord (char :: chars.takeWhile isWordPart)
    rw [same] at spelled
    obtain rfl : spelling = _ := spelled
    exact ⟨same.symm, by simp [isWord, starts], head?_dropWhile_any isWordPart chars⟩
  split at read
  · next enclosure _ =>
    simp only [firstEnclosed] at read
    split at read <;> cases enclosure <;> cases read <;> cases word
  · simp only [firstSymbol] at read
    split at read
    · cases read
      cases word
    · split at read <;> cases read
      cases word

/-- Nothing is wrong with a word. -/
theorem fault_eq_none_of_ofWord {spelling written : List Char} {kind : TokenKind}
    {fault : Option LexicalFault} (same : token kind spelling fault = ofWord written) :
    fault = none := by
  simp only [ofWord] at same
  split at same <;> cases same <;> rfl

/-- A word fits in front of what no word goes on with. -/
theorem fits_ofWord {spelling rest : List Char} (word : isWord spelling = true)
    (stops : rest.head?.any isWordPart = false) : (ofWord spelling).Fits rest := by
  cases spelling with
  | nil => cases word
  | cons char tail =>
    obtain ⟨starts, goesOn⟩ := Bool.and_eq_true_iff.mp word
    have inside := List.all_eq_true.mp goesOn
    refine ⟨char, tail, spelling_ofWord _, ?_⟩
    rw [first_of_isWordStart starts, takeWhile_run inside stops, dropWhile_run inside stops]

theorem head?_isWordStart_of_isWord {spelling : List Char} (word : isWord spelling = true)
    (rest : List Char) : (spelling ++ rest).head?.any isWordStart = true := by
  cases spelling with
  | nil => cases word
  | cons char tail => exact (Bool.and_eq_true_iff.mp word).1

/-- **A word may be written as another word**, and all other pieces stay what they are. -/
theorem all_respelled {chars spelling other : List Char} {front behind : List Piece}
    {kind : TokenKind} {fault : Option LexicalFault}
    (sound : ∀ piece ∈ front, piece.fault? = none) (wasWord : kind.isWord = true)
    (cut : all chars = front ++ token kind spelling fault :: behind)
    (word : isWord other = true) :
    all (text front ++ (other ++ text behind)) = front ++ ofWord other :: behind := by
  obtain ⟨char, spelled, read, later⟩ := all_eq_cons (all_drop cut)
  obtain ⟨_, wasSpelled, stops⟩ := eq_ofWord_of_first read wasWord
  have replaced : all (other ++ text behind) = ofWord other :: behind := by
    have fits := (fits_ofWord word stops).all_append
    rw [spelling_ofWord] at fits
    exact fits.trans (congrArg _ later)
  have begins := head?_isWordStart_of_isWord word (text behind)
  have began := head?_isWordStart_of_isWord wasSpelled (text behind)
  rcases List.eq_nil_or_concat front with rfl | ⟨earlier, last, rfl⟩
  · exact replaced
  rw [List.concat_eq_append] at cut sound ⊢
  have cutLast : all chars = earlier ++ last :: (token kind spelling fault :: behind) := by
    rw [cut, List.append_assoc]
    rfl
  have whole : all (text earlier ++ (last.spelling ++ (spelling ++ text behind))) =
      earlier ++ last :: (token kind spelling fault :: behind) := by
    have same : text earlier ++ (last.spelling ++ (spelling ++ text behind)) = chars := by
      rw [← spellings chars, cutLast]
      simp [text, Piece.spelling]
    rw [same, cutLast]
  obtain ⟨first, begun, readLast, _⟩ := all_eq_cons (all_drop cutLast)
  have fits := fits_inFront readLast (sound last (by simp)) began begins
  -- The piece in front of the word looks the same to those in front of it, even if it is a point.
  have may : MayReplace (last.spelling ++ (other ++ text behind))
      (last.spelling ++ (spelling ++ text behind)) := by
    rw [begun]
    refine .inl ⟨rfl, fun _ => ?_⟩
    cases last.spelling.tail with
    | nil => exact begins.trans began.symm
    | cons => rfl
  have inFront := all_exchange (fun piece member => sound piece (by simp [member])) may
    (fun _ _ _ _ => by rw [begun]; rfl) whole
  rw [fits.all_append, replaced] at inFront
  rw [text_append, text_cons, text_nil, List.append_nil, List.append_assoc, List.append_assoc]
  exact inFront

/-- A keyword in any letter case is a word. -/
theorem isWord_of_ofWord? {keyword : Keyword} {word : String}
    (spelled : Keyword.ofWord? word = some keyword) : isWord word.toList = true := by
  have same := Keyword.same_of_ofWord? spelled
  rw [← @String.ofList_toList word] at same
  have letters := Keyword.isWordStart_of_same same
  have some := Keyword.ne_nil_of_same same
  cases chars : word.toList with
  | nil => exact absurd chars some
  | cons char rest =>
    rw [chars] at letters
    obtain ⟨first, others⟩ := List.forall_mem_cons.mp letters
    refine Bool.and_eq_true_iff.mpr ⟨first, List.all_eq_true.mpr fun other member => ?_⟩
    exact isWordPart_of_isWordStart (others other member)

/-! ## Words of a text -/

/-- A word is a token that is no comment. -/
theorem ownTokens_of_isWord {kind : TokenKind} (isWord : kind.isWord = true) (position : Position)
    (spelling : List Char) (fault : Option LexicalFault) :
    (token kind spelling fault).ownTokens position = [Token.place kind position spelling] := by
  cases kind <;> first | rfl | cases isWord

/-- Nothing is told about a word, nor about pieces without faults in front of it. -/
theorem faults_word {front behind : List Piece} (sound : ∀ piece ∈ front, piece.fault? = none)
    {kind : TokenKind} (isWord : kind.isWord = true) (spelling : List Char) :
    faults .start (front ++ token kind spelling none :: behind) =
      List.replicate ((tokens .start front).length + 1) [] ++
        faults (Position.start.advanceAll (text front ++ spelling)) behind := by
  have soundWord : ∀ piece ∈ front ++ [token kind spelling none], piece.fault? = none :=
    List.forall_mem_append.mpr ⟨sound, by simp [Piece.fault?]⟩
  have split := @faults_append .start _ behind soundWord
  rw [tokens_append, tokens, ownTokens_of_isWord isWord, List.append_assoc] at split
  simpa [tokens, Piece.spelling] using split

/-- The pieces of a text around one of its words, without faults in front of it. -/
structure Around (chars : List Char) (word : Token) (front behind : List Piece) : Prop where
  sound : ∀ piece ∈ front, piece.fault? = none
  isWord : word.kind.isWord = true
  place : word = Token.place word.kind (Position.start.advanceAll (text front)) word.spelling.toList
  cut : all chars = front ++ token word.kind word.spelling.toList none :: behind

/-- A word among the tokens of the first pieces has pieces around it. -/
theorem exists_around {chars : List Char} {pieces others : List Piece} {before after : List Token}
    {word : Token} (cut : all chars = pieces ++ others)
    (sound : ∀ piece ∈ pieces, piece.fault? = none)
    (placed : tokens .start pieces = before ++ word :: after) (isWord : word.kind.isWord = true) :
    ∃ front behind, Around chars word front behind ∧ tokens .start front = before := by
  obtain ⟨front, piece, behind, rfl, inFront, isToken, _⟩ := tokens_eq_append placed
  have isOwn : word ∈ piece.ownTokens (Position.start.advanceAll (text front)) := by
    rw [isToken]
    exact List.mem_singleton_self word
  have isOwn := (mem_ownTokens_iff.mp isOwn).1
  rw [List.append_assoc, List.cons_append] at cut
  refine ⟨front, behind ++ others, ?_, inFront⟩
  cases piece with
  | token kind spelling fault =>
    obtain rfl := Option.some.inj isOwn
    have written : (Token.place kind (Position.start.advanceAll (text front))
        spelling).spelling.toList = spelling := String.toList_ofList
    obtain ⟨_, _, read, _⟩ := all_eq_cons (all_drop cut)
    obtain rfl := fault_eq_none_of_ofWord (eq_ofWord_of_first read isWord).1
    exact ⟨fun piece member => sound piece (by simp [member]), isWord, by rw [written]; rfl,
      by rw [written]; exact cut⟩
  | _ => cases isOwn

namespace Around

variable {chars : List Char} {word : Token} {front behind : List Piece}
  (around : Around chars word front behind)
include around

theorem eq_text : chars = text front ++ (word.spelling.toList ++ text behind) := by
  rw [← spellings chars, around.cut]
  simp [text, Piece.spelling]

/-- A word has characters. -/
theorem spelling_ne_nil : word.spelling.toList ≠ [] := by
  obtain ⟨_, _, read, _⟩ := all_eq_cons (all_drop around.cut)
  intro none
  have spelled := (eq_ofWord_of_first read around.isWord).2.1
  rw [none] at spelled
  cases spelled

/-- Another text may stand in the place of the word. -/
theorem replace? (other : List Char) :
    word.span.replace? other chars = some (text front ++ (other ++ text behind)) := by
  have bounds : word.span = ⟨byteLength (text front),
      byteLength (text front) + byteLength word.spelling.toList⟩ := by
    rw [around.place, Token.place, Position.offset_advanceAll, String.toList_ofList]
    simp [Position.start]
  rw [bounds, around.eq_text]
  exact Span.replace?_append _ _ _ _

/-- The tokens of the text are those of the pieces in front, the word, and those of the pieces
behind. -/
theorem tokens_eq : tokens .start (all chars) = tokens .start front ++
    word :: tokens (Position.start.advanceAll (text front ++ word.spelling.toList)) behind := by
  rw [around.cut, tokens_append, tokens, ownTokens_of_isWord around.isWord, ← around.place,
    ← Position.advanceAll_append]
  rfl

/-- **The word may be written as a keyword.** -/
theorem all_keyword {keyword : Keyword} {other : String}
    (spelled : Keyword.ofWord? other = some keyword) :
    all (text front ++ (other.toList ++ text behind)) =
      front ++ token (.keyword keyword) other.toList none :: behind := by
  have written : ofWord other.toList = token (.keyword keyword) other.toList none := by
    simp only [ofWord, String.ofList_toList, spelled]
  rw [all_respelled around.sound around.isWord around.cut (isWord_of_ofWord? spelled), written]

/-- Then the keyword stands among the tokens, and those behind it have moved. -/
theorem tokens_keyword {keyword : Keyword} {other : String}
    (spelled : Keyword.ofWord? other = some keyword) :
    tokens .start (all (text front ++ (other.toList ++ text behind))) = tokens .start front ++
      Token.place (.keyword keyword) (Position.start.advanceAll (text front)) other.toList ::
        tokens (Position.start.advanceAll (text front ++ other.toList)) behind := by
  rw [around.all_keyword spelled, tokens_append, tokens, ownTokens_of_isWord rfl,
    ← Position.advanceAll_append]
  rfl

end Around

end Piece

end DaxScript
