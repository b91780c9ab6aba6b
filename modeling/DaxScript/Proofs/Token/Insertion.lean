import DaxScript.Proofs.Token.Spelling

/-!
# Putting pieces of a text in parentheses

A piece without faults that fits in front of some text fits in front of every separator, unless it
is a comment, which goes on up to the end of its line (`Piece.fits_or_ends`).  So a parenthesis may
be put in front of any piece that is no blank, and a line feed and a parenthesis behind any pieces:
everything else is cut as before (`Piece.all_parenthesized`).

A point is the one exception.  In front of a word it is no part of the numeral that it stands
behind, so a numeral looks at two characters there.
-/

set_option autoImplicit false

namespace DaxScript.Piece

/-- **A piece without faults fits in front of all separators**, or it is a comment up to the end of
its line. -/
theorem fits_or_ends {char : Char} {chars rest : List Char} {piece : Piece}
    (read : first char chars = (piece, rest)) (sound : piece.fault? = none) :
    (∀ other, Separated other → piece.Fits other) ∨ rest.head?.any (!isLineEnd ·) = false := by
  unfold first at read
  split at read
  · next white =>
    cases read
    exact .inl fun other _ => fits_blank white other
  split at read
  · cases read
    exact .inr (head?_dropWhile_any _ _)
  split at read
  · simp only [ofNumeral] at read
    split at read
    · next value known =>
      cases read
      exact .inl fun other => fits_numeral known
    · cases read
      cases sound
  split at read
  · next starts =>
    cases read
    exact .inl fun other => fits_word starts (belongs_of_mem_takeWhile isWordPart chars)
  split at read
  · next enclosure opens =>
    simp only [firstEnclosed] at read
    split at read
    · next closed found =>
      obtain ⟨possible, written⟩ := Enclosure.spelling_of_close? found
      cases read
      rw [opener_of_ofOpener? opens, written]
      have canHold : enclosure.CanHold (String.ofList closed.content).toList := by
        rwa [String.toList_ofList]
      refine .inl fun other separated => ?_
      have fits := fits_enclosed canHold separated
      rwa [enclosed, String.toList_ofList] at fits
    · cases read
      cases sound
  · simp only [firstSymbol] at read
    split at read
    · next sign double =>
      cases chars with
      | nil => cases double
      | cons second later =>
        cases read
        have written := spelling_of_doubleSymbol? double
        rw [List.take_succ_cons, List.take_zero, ← written]
        exact .inl fun other => fits_symbol sign
    · split at read
      · next sign single =>
        cases read
        rw [← spelling_of_singleSymbol? single]
        exact .inl fun other => fits_symbol sign
      · cases read
        cases sound

/-- A character that ends a line is a blank. -/
theorem first_of_isLineEnd {char : Char} (ends : isLineEnd char = true) (chars : List Char) :
    first char chars = (blank char, chars) := by
  rw [isLineEnd, Bool.or_eq_true, beq_iff_eq, beq_iff_eq] at ends
  refine first_blank ?_
  rcases ends with rfl | rfl <;> decide

/-- A piece with a token begins no further line. -/
theorem noLineEnd_of_ownTokens {piece : Piece} {source : List Char} (member : piece ∈ all source)
    {place : Position} {token : Token} (single : piece.ownTokens place = [token])
    (rest : List Char) : (piece.spelling ++ rest).head?.any (!isLineEnd ·) = true := by
  obtain ⟨char, later, same⟩ := eq_first_of_mem_all member
  have begins := spelling_first char later
  rw [← same] at begins
  obtain ⟨head, tail, spelled⟩ := List.exists_cons_of_ne_nil (spelling_ne_nil_of_mem_all member)
  rw [spelled] at begins ⊢
  obtain rfl : head = char := (List.cons.inj begins).1
  cases ends : isLineEnd head with
  | false => simp [ends]
  | true =>
    rw [first_of_isLineEnd ends] at same
    rw [same] at single
    cases single

/-- In front of a piece that is no point all texts look alike that the piece may stand in. -/
theorem mayReplace_behind {piece : Piece} (some : piece.spelling ≠ [])
    (noPoint : piece.spelling ≠ ['.']) (other rest : List Char) :
    MayReplace (piece.spelling ++ other) (piece.spelling ++ rest) := by
  obtain ⟨char, tail, spelled⟩ := List.exists_cons_of_ne_nil some
  rw [spelled] at noPoint ⊢
  refine .inl ⟨rfl, fun isPoint => ?_⟩
  cases tail with
  | nil => exact absurd (congrArg ([·]) (Option.some.inj isPoint)) noPoint
  | cons => rfl

section Insertion

variable {source : List Char} {front behind : List Piece}
  (sound : ∀ piece ∈ all source, piece.fault? = none)
  (noPoint : ∀ piece ∈ all source, piece.spelling ≠ ['.'])
include sound noPoint

/-- **A text that begins with a separator may be put between two pieces**, unless the one in front
is a comment. -/
theorem all_insert (cut : all source = front ++ behind) {other : List Char}
    (separated : Separated other)
    (noLineEnd : (text behind).head?.any (!isLineEnd ·) = true) :
    all (text front ++ other) = front ++ all other := by
  rcases List.eq_nil_or_concat front with rfl | ⟨earlier, last, rfl⟩
  · rfl
  · rw [List.concat_eq_append] at cut ⊢
    have isPiece : last ∈ all source := by simp [cut]
    have spelled := spelling_ne_nil_of_mem_all isPiece
    have cutLast : all source = earlier ++ last :: behind := by rw [cut, List.append_assoc]; rfl
    have whole : all (text earlier ++ (last.spelling ++ text behind)) =
        earlier ++ last :: behind := by
      have same : text earlier ++ (last.spelling ++ text behind) = source := by
        rw [← text_cons, ← text_append, ← cutLast]
        exact spellings source
      rw [same, cutLast]
    have fits : last.Fits other := by
      obtain ⟨char, begins, read, _⟩ := all_eq_cons (all_drop cutLast)
      rcases fits_or_ends read (sound last isPiece) with fits | ends
      · exact fits other separated
      · exact absurd (ends.symm.trans noLineEnd) Bool.false_ne_true
    have inFront := all_exchange (fun piece member => sound piece (by simp [cut, member]))
      (mayReplace_behind spelled (noPoint last isPiece) other (text behind))
      (fun before point same isPoint => absurd isPoint (noPoint point (by simp [cut, same]))) whole
    rw [fits.all_append] at inFront
    rw [text_append, text_cons, text_nil, List.append_nil, List.append_assoc, List.append_assoc]
    exact inFront

/-- **A parenthesis may be put in front of some pieces, and a line feed and a parenthesis behind
them.** -/
theorem all_parenthesized {middle : List Piece} (cut : all source = front ++ (middle ++ behind))
    (noLineEnd : (text (middle ++ behind)).head?.any (!isLineEnd ·) = true) :
    all (text front ++ '(' :: (text middle ++ '\n' :: ')' :: text behind)) =
      front ++ ofSymbol .leftParen ::
        (middle ++ blank '\n' :: ofSymbol .rightParen :: behind) := by
  have last : all (text behind) = behind := by
    rw [← List.append_assoc] at cut
    exact all_drop cut
  have closing : all ('\n' :: ')' :: text behind) =
      blank '\n' :: ofSymbol .rightParen :: behind := by
    have feed := (fits_blank (by decide : Unicode.isWhiteSpace '\n' = true)
      (')' :: text behind)).all_append
    have paren := (fits_lone (rfl : Symbol.rightParen.isLone = true) (text behind)).all_append
    rw [last] at paren
    exact feed.trans (congrArg _ paren)
  have inside : all (text middle ++ '\n' :: ')' :: text behind) =
      middle ++ blank '\n' :: ofSymbol .rightParen :: behind := by
    have whole := all_drop cut
    rw [List.flatMap_append] at whole
    have lineFeed : MayReplace ('\n' :: ')' :: text behind) (text behind) :=
      .inr fun char isHead => (Option.some.inj isHead).symm
    rw [← closing]
    exact all_exchange (fun piece member => sound piece (by simp [cut, member])) lineFeed
      (fun before point same isPoint => absurd isPoint (noPoint point (by simp [cut, same]))) whole
  have opening : all ('(' :: (text middle ++ '\n' :: ')' :: text behind)) =
      ofSymbol .leftParen :: (middle ++ blank '\n' :: ofSymbol .rightParen :: behind) := by
    rw [← inside]
    exact (fits_lone (rfl : Symbol.leftParen.isLone = true) _).all_append
  have separated : Separated ('(' :: (text middle ++ '\n' :: ')' :: text behind)) :=
    separated_cons (by decide) _
  rw [all_insert sound noPoint cut separated noLineEnd, opening]

/-- Nothing is wrong with the text then either. -/
theorem sound_parenthesized {middle : List Piece} (cut : all source = front ++ (middle ++ behind))
    (noLineEnd : (text (middle ++ behind)).head?.any (!isLineEnd ·) = true) :
    ∀ piece ∈ all (text front ++ '(' :: (text middle ++ '\n' :: ')' :: text behind)),
      piece.fault? = none := by
  rw [all_parenthesized sound noPoint cut noLineEnd]
  simp only [cut, List.mem_append] at sound
  intro piece member
  simp only [List.mem_append, List.mem_cons] at member
  rcases member with isFront | rfl | isMiddle | rfl | rfl | isBehind
  · exact sound piece (.inl isFront)
  · rfl
  · exact sound piece (.inr (.inl isMiddle))
  · rfl
  · rfl
  · exact sound piece (.inr (.inr isBehind))

end Insertion

end DaxScript.Piece
