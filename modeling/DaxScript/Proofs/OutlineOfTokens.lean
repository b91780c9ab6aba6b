import DaxScript.Proofs.Outline.TokenOutline
import DaxScript.Proofs.Token.Separation

/-!
# The outline lists the statements that the tokens show

The outline is read off a coarser cut of the source than the tokens, and both cuts agree on
everything that matters to it: on the words, on the enclosed texts, and on the parentheses, braces
and semicolons outside of these.  So where the text of a source is sound and every carriage return
belongs to the end of a line, the outline lists the statements of the tokens, with the labels that
are read off their texts (`listed_all`), and they stand where the tokens say
(`outline_eq_statements`).
-/

set_option autoImplicit false

namespace DaxScript

open Outline

/-! ## Segments of a text -/

namespace Outline.Segment

/-- A character that is a segment of its own wherever it stands. -/
def standsAlone (char : Char) : Bool :=
  Piece.beginsSign char && char != '-' && char != '/' || char.isDigit

theorem first_sign {char : Char} {chars : List Char}
    (notWhite : Unicode.isWhiteSpace char = false)
    (noComment : chars.head?.any (opensComment char) = false)
    (noWord : isWordStart char = false) (noOpener : Enclosure.ofOpener? char = none) :
    first char chars = (sign char, chars) := by
  rw [first, if_neg (by simp [notWhite]), if_neg (by simp [noComment]),
    if_neg (by simp [noWord]), noOpener]

theorem first_of_standsAlone {char : Char} (alone : standsAlone char = true) (chars : List Char) :
    first char chars = (sign char, chars) := by
  rw [standsAlone, Bool.or_eq_true] at alone
  rcases alone with begins | digit
  · simp only [Piece.beginsSign, Bool.and_eq_true, Bool.not_eq_true', bne_iff_ne,
      Option.isNone_iff_eq_none] at begins
    obtain ⟨⟨⟨⟨⟨notWhite, _⟩, noWord⟩, noOpener⟩, noMinus⟩, noSlash⟩ := begins
    exact first_sign notWhite (head?_opensComment_of_ne ⟨noMinus, noSlash⟩ _) noWord noOpener
  · have noOther {other : Char} (notDigit : other.isDigit = false) : char ≠ other := by
      rintro rfl
      simp [digit] at notDigit
    have noOpener : Enclosure.ofOpener? char = none := by
      rw [Enclosure.ofOpener?, if_neg (noOther (by decide)), if_neg (noOther (by decide)),
        if_neg (noOther (by decide))]
    have part : isWordPart char = true := isWordPart_of_isDigit digit
    exact first_sign (isWhiteSpace_of_isWordPart part) (head?_opensComment_of_isWordPart part _)
      (isWordStart_eq_false_of_isDigit digit) noOpener

/-- Characters that stand alone are segments one by one. -/
theorem all_append_of_standsAlone {front : List Char}
    (alone : ∀ char ∈ front, standsAlone char = true) (rest : List Char) :
    all (front ++ rest) = front.map sign ++ all rest := by
  induction front with
  | nil => rfl
  | cons char front ih =>
    rw [List.forall_mem_cons] at alone
    rw [List.cons_append, all, first_of_standsAlone alone.1]
    exact congrArg _ (ih alone.2)

end Outline.Segment

/-! ## Both cuts of a text -/

/-- Whether every carriage return of a text stands in front of a line feed. -/
def pairsReturns : List Char → Bool
  | [] => true
  | char :: chars => (char != '\r' || chars.head? == some '\n') && pairsReturns chars

theorem pairsReturns_suffix (front : List Char) {behind : List Char}
    (pairs : pairsReturns (front ++ behind) = true) : pairsReturns behind = true := by
  induction front with
  | nil => exact pairs
  | cons char front ih =>
    rw [List.cons_append, pairsReturns, Bool.and_eq_true] at pairs
    exact ih pairs.2

namespace Piece

def isComment : Piece → Bool
  | token (.comment _) _ _ => true
  | _ => false

/-- Whether every carriage return at the end of a comment stands in front of a line feed. -/
def closesComments : List Piece → Bool
  | [] => true
  | piece :: pieces =>
    (!(piece.isComment && pieces.head? == some (blank '\r')) ||
      pieces.tail.head? == some (blank '\n')) && closesComments pieces

theorem closesComments_suffix {pieces behind : List Piece} (suffix : behind <:+ pieces)
    (closes : closesComments pieces = true) : closesComments behind = true := by
  obtain ⟨front, rfl⟩ := suffix
  induction front with
  | nil => exact closes
  | cons piece front ih =>
    rw [List.cons_append, closesComments, Bool.and_eq_true] at closes
    exact ih closes.2

/-- A blank in front of all pieces is the first character. -/
theorem head?_all_eq_blank {chars : List Char} {char : Char}
    (isBlank : (all chars).head? = some (blank char)) : chars.head? = some char := by
  cases chars with
  | nil => rw [all] at isBlank; cases isBlank
  | cons first chars =>
    have spelled := spelling_first first chars
    rw [all] at isBlank
    rw [Option.some.inj isBlank] at spelled
    rw [← spelled]
    rfl

theorem head?_all_of_white {chars : List Char} {char : Char}
    (white : Unicode.isWhiteSpace char = true) (isFirst : chars.head? = some char) :
    (all chars).head? = some (blank char) := by
  obtain ⟨others, rfl⟩ : ∃ others, chars = char :: others := List.head?_eq_some_iff.mp isFirst
  rw [all, first_blank white]
  rfl

/-- Where every carriage return stands in front of a line feed, those at the end of comments do. -/
theorem closesComments_of_pairsReturns {chars : List Char} (pairs : pairsReturns chars = true) :
    closesComments (all chars) = true := by
  induction counted : chars.length using Nat.strongRecOn generalizing chars with
  | ind size ih =>
  cases chars with
  | nil => rw [all, closesComments]
  | cons char chars =>
    have cut := spelling_first char chars
    have shorter := counted ▸ length_first_rest char chars
    have behind : pairsReturns (first char chars).2 = true := by
      rw [← cut] at pairs
      exact pairsReturns_suffix _ pairs
    rw [all, closesComments, ih _ shorter behind rfl, Bool.and_true]
    generalize (first char chars).2 = rest at behind
    cases returns : (all rest).head? == some (blank '\r') with
    | false => simp
    | true =>
      have isReturn := head?_all_eq_blank (beq_iff_eq.mp returns)
      obtain ⟨later, rfl⟩ := List.head?_eq_some_iff.mp isReturn
      rw [pairsReturns, Bool.and_eq_true] at behind
      have feeds : later.head? = some '\n' := by simpa using behind.1
      have found : (all later).head? = some (blank '\n') :=
        head?_all_of_white (by decide) feeds
      have white : Unicode.isWhiteSpace '\r' = true := by decide
      rw [all, first_blank white]
      simp [found]

end Piece

open TokenOutline

/-- From a position on, the outline of a text lists what its tokens show. -/
def Outlined (source : List Char) (position : Position) (chars : List Char) : Prop :=
  ∀ ⦃draft? : Option Draft⦄ ⦃state : State⦄, Agrees draft? state →
    (entries source draft? position.offset (Segment.all chars)).map StatementSpan.span =
      statements state (Piece.tokens position (Piece.all chars))

/-- From a position on, the outline of a text lists what its tokens show, with labels and texts. -/
def Listed (source : List Char) (position : Position) (chars : List Char) : Prop :=
  ∀ ⦃draft? : Option Draft⦄ ⦃state : State⦄, Agrees draft? state →
    entries source draft? position.offset (Segment.all chars) =
      listed source state (Piece.tokens position (Piece.all chars))

namespace Listed

variable {source : List Char} {position : Position} {char : Char} {chars rest : List Char}

/-- At the end the statement that is going on ends. -/
theorem nil : Listed source position [] := by
  intro draft? state agrees
  rw [Segment.all, Piece.all]
  exact agrees.close none

theorem blank (white : Unicode.isWhiteSpace char = true)
    (later : Listed source (position.advanceAll [char]) chars) :
    Listed source position (char :: chars) := by
  intro draft? state agrees
  have segment : Segment.first char chars = (.blank char, chars) := by
    rw [Segment.first, if_pos white]
  rw [Segment.all, segment, Piece.all, Piece.first_blank white]
  have behind := later agrees
  rw [Position.offset_advanceAll] at behind
  exact behind

section Token

variable {kind : TokenKind} {spelling : List Char} (meaning : kind.isTrivia = false)
  (read : Piece.first char chars = (.token kind spelling none, rest))
  (later : Listed source (position.advanceAll spelling) rest)
include meaning read later

/-- A token in front of a text whose outline is known. -/
theorem token (front : List Segment) (cut : Segment.all (char :: chars) = front ++ Segment.all rest)
    (step : ∀ {draft? : Option Draft} {state : State} {tokens : List Token} {more : List Segment},
      Agrees draft? state →
      (∀ {draft? : Option Draft} {state : State}, Agrees draft? state →
        entries source draft? (Token.place kind position spelling).span.stop more =
          listed source state tokens) →
      entries source draft? (Token.place kind position spelling).span.start (front ++ more) =
        listed source state (Token.place kind position spelling :: tokens)) :
    Listed source position (char :: chars) := by
  intro draft? state agrees
  have own : (Piece.token kind spelling none).ownTokens position =
      [Token.place kind position spelling] := by
    simp [Piece.ownTokens, Piece.token?, Token.place, meaning]
  rw [cut, Piece.all, read, Piece.tokens, own]
  refine step agrees fun agrees => ?_
  have behind := later agrees
  rw [Position.offset_advanceAll] at behind
  exact behind

/-- A token of characters that stand alone and do not matter. -/
theorem plain (noWord : (Token.place kind position spelling).openingWord? = none)
    (isPlain : TokenOutline.isPlain kind = true) (nonempty : spelling ≠ [])
    (noMarks : ∀ char ∈ spelling, marks char = false)
    (cut : Segment.all (char :: chars) = spelling.map .sign ++ Segment.all rest) :
    Listed source position (char :: chars) := by
  refine token meaning read later _ cut fun agrees behind => ?_
  exact entries_extended agrees behind _ noWord isPlain (entries_signs nonempty noMarks _)

end Token

/-- Numerals consist of characters that stand alone. -/
theorem numeral {spelling : List Char} {value : Binary64}
    (known : Numeral.value? spelling = some value)
    (read : Piece.first char chars = (.token (.number value) spelling none, rest))
    (later : Listed source (position.advanceAll spelling) rest) :
    Listed source position (char :: chars) := by
  have nonempty : spelling ≠ [] := by
    have some := Piece.spelling_first_ne_nil char chars
    rwa [read] at some
  have parts : ∀ part ∈ spelling, part.isDigit = true ∨ part = '.' := by
    rcases Piece.numeral_cases known with ⟨_, digits⟩ | ⟨whole, fraction, rfl, digits, places, _⟩
    · exact fun part member => .inl (digits part member)
    · intro part member
      rcases List.mem_append.mp member with inWhole | behind
      · exact .inl (digits part inWhole)
      · rcases List.mem_cons.mp behind with point | inFraction
        · exact .inr point
        · exact .inl (places part inFraction)
  have alone : ∀ part ∈ spelling, Segment.standsAlone part = true := by
    intro part member
    rcases parts part member with digit | rfl
    · simp [Segment.standsAlone, digit]
    · decide
  have noMarks : ∀ part ∈ spelling, marks part = false := by
    intro part member
    rcases parts part member with digit | rfl
    · refine Bool.eq_false_iff.mpr fun mark => ?_
      simp only [marks, List.contains_eq_mem, List.mem_cons, List.not_mem_nil, or_false,
        decide_eq_true_eq] at mark
      rcases mark with rfl | rfl | rfl | rfl | rfl <;> exact absurd digit (by decide)
    · decide
  have whole := Piece.spelling_first char chars
  rw [read] at whole
  refine plain rfl read later rfl rfl nonempty noMarks ?_
  rw [← whole]
  exact Segment.all_append_of_standsAlone alone rest

theorem word (notWhite : Unicode.isWhiteSpace char = false)
    (noComment : chars.head?.any (opensComment char) = false)
    (starts : isWordStart char = true)
    (read : Piece.first char chars =
      (.ofWord (char :: chars.takeWhile isWordPart), chars.dropWhile isWordPart))
    (later : Listed source (position.advanceAll (char :: chars.takeWhile isWordPart))
      (chars.dropWhile isWordPart)) :
    Listed source position (char :: chars) := by
  have segment : Segment.first char chars =
      (.word (char :: chars.takeWhile isWordPart), chars.dropWhile isWordPart) := by
    rw [Segment.first, if_neg (by simp [notWhite]), if_neg (by simp [noComment]), if_pos starts]
  have cut : Segment.all (char :: chars) =
      [.word (char :: chars.takeWhile isWordPart)] ++ Segment.all (chars.dropWhile isWordPart) := by
    rw [Segment.all, segment, List.singleton_append]
  unfold Piece.ofWord at read
  dsimp only at read
  split at read
  · exact token rfl read later _ cut fun agrees behind =>
      entries_word agrees behind rfl (OpeningWord.ofWord?_eq_spelledBy? _).symm rfl rfl
  · exact token rfl read later _ cut fun agrees behind =>
      entries_word agrees behind rfl (OpeningWord.ofWord?_eq_spelledBy? _).symm rfl rfl

theorem enclosed {enclosure : Enclosure} {closed : Enclosure.Closed}
    (notWhite : Unicode.isWhiteSpace char = false)
    (noComment : chars.head?.any (opensComment char) = false)
    (noWord : isWordStart char = false) (opens : Enclosure.ofOpener? char = some enclosure)
    (found : enclosure.close? chars = some closed)
    (read : Piece.first char chars = (.token (enclosure.kind (String.ofList closed.content))
      (char :: closed.spelling) none, closed.rest))
    (later : Listed source (position.advanceAll (char :: closed.spelling)) closed.rest) :
    Listed source position (char :: chars) := by
  have segment : Segment.first char chars = (.enclosed (char :: closed.spelling), closed.rest) := by
    rw [Segment.first, if_neg (by simp [notWhite]), if_neg (by simp [noComment]),
      if_neg (by simp [noWord]), opens]
    simp only [Segment.firstEnclosed, found]
  have cut : Segment.all (char :: chars) =
      [.enclosed (char :: closed.spelling)] ++ Segment.all closed.rest := by
    rw [Segment.all, segment, List.singleton_append]
  have meaning : (enclosure.kind (String.ofList closed.content)).isTrivia = false := by
    cases enclosure <;> rfl
  refine token meaning read later _ cut fun agrees behind => ?_
  cases enclosure <;> exact entries_enclosed agrees behind rfl rfl rfl

/-- Signs of one character may matter, and those of two do not. -/
theorem symbol (notWhite : Unicode.isWhiteSpace char = false)
    (noComment : chars.head?.any (opensComment char) = false)
    (noWord : isWordStart char = false) (noOpener : Enclosure.ofOpener? char = none)
    (read : Piece.first char chars = Piece.firstSymbol char chars)
    (sound : (Piece.firstSymbol char chars).1.fault? = none)
    (later : Listed source (position.advanceAll (Piece.firstSymbol char chars).1.spelling)
      (Piece.firstSymbol char chars).2) :
    Listed source position (char :: chars) := by
  have segment := Segment.first_sign notWhite noComment noWord noOpener
  have single : Segment.all (char :: chars) = [char].map .sign ++ Segment.all chars := by
    rw [Segment.all, segment]
    rfl
  unfold Piece.firstSymbol at read sound later
  cases double : chars.head?.bind (Piece.doubleSymbol? char) with
  | some sign =>
    rw [double] at read later
    cases chars with
    | nil => cases double
    | cons second chars =>
      have double : Piece.doubleSymbol? char second = some sign := double
      have secondAlone : Segment.standsAlone second = true ∧ marks char = false ∧
          marks second = false ∧ isPlain (.symbol sign) = true := by
        unfold Piece.doubleSymbol? at double
        split at double <;> first | (cases double; decide) | cases double
      have cut : Segment.all (char :: second :: chars) =
          [char, second].map .sign ++ Segment.all chars := by
        rw [single, Segment.all, Segment.first_of_standsAlone secondAlone.1]
        rfl
      refine plain rfl read later rfl secondAlone.2.2.2 (List.cons_ne_nil _ _) ?_ cut
      simp [secondAlone]
  | none =>
    simp only [double] at read sound later
    cases isSign : Piece.singleSymbol? char with
    | none =>
      rw [isSign] at sound
      cases sound
    | some sign =>
      simp only [isSign] at read later
      by_cases mark : marks char = true
      · refine token rfl read later _ single fun agrees behind => ?_
        simp only [marks, List.contains_eq_mem, List.mem_cons, List.not_mem_nil, or_false,
          decide_eq_true_eq] at mark
        rcases mark with rfl | depth
        · cases isSign
          exact entries_semicolon agrees behind rfl rfl
        · refine entries_depth agrees behind rfl ?_ rfl
          rcases depth with rfl | rfl | rfl | rfl <;> cases isSign <;> decide
      · have noMark : marks char = false := Bool.eq_false_iff.mpr mark
        refine plain rfl read later rfl ?_ (List.cons_ne_nil _ _) ?_ single
        · unfold Piece.singleSymbol? at isSign
          split at isSign <;> first | (cases isSign; first | rfl | cases noMark) | cases isSign
        · simp [noMark]

/-- A comment may reach over the carriage return that ends its line, and this is a blank. -/
theorem comment (notWhite : Unicode.isWhiteSpace char = false)
    (opens : chars.head?.any (opensComment char) = true)
    (closes : Piece.closesComments (Piece.all (char :: chars)) = true)
    (later : ∀ front behind : List Char, char :: chars = front ++ behind → front ≠ [] →
      Piece.all behind <:+ Piece.all (char :: chars) →
      Listed source (position.advanceAll front) behind) :
    Listed source position (char :: chars) := by
  cases chars with
  | nil => cases opens
  | cons second chars =>
  obtain rfl := eq_of_opensComment opens
  have noLineFeed : (second != '\n') = true := by
    refine bne_iff_ne.mpr ?_
    rintro rfl
    exact absurd notWhite (by decide)
  -- The line of the comment, and what follows it.
  obtain ⟨line, after, rfl, inside, stops⟩ : ∃ line after, chars = line ++ after ∧
      (∀ part ∈ line, (!Piece.isLineEnd part) = true) ∧
      after.head?.any (!Piece.isLineEnd ·) = false :=
    ⟨_, _, List.takeWhile_append_dropWhile.symm, belongs_of_mem_takeWhile _ chars,
      head?_dropWhile_any _ chars⟩
  have piece : Piece.first second (second :: (line ++ after)) =
      (.token (.comment (String.ofList line)) (second :: second :: line) none, after) := by
    rw [Piece.first_comment notWhite opens, List.drop_one, List.tail_cons, Piece.firstComment,
      Piece.splitLine, takeWhile_run inside stops, dropWhile_run inside stops]
  have noTokens : Piece.tokens position (Piece.all (second :: second :: (line ++ after))) =
      Piece.tokens (position.advanceAll (second :: second :: line)) (Piece.all after) := by
    rw [Piece.all, piece]
    rfl
  have finish {reach behind : List Char} (split : line ++ after = reach ++ behind)
      (inReach : ∀ part ∈ reach, (part != '\n') = true)
      (ends : behind.head?.any (· != '\n') = false) (isPart : Piece.all behind <:+ Piece.all after)
      (sameTokens :
        Piece.tokens (position.advanceAll (second :: second :: line)) (Piece.all after) =
        Piece.tokens (position.advanceAll (second :: second :: reach)) (Piece.all behind)) :
      Listed source position (second :: second :: (line ++ after)) := by
    intro draft? state agrees
    have segment : Segment.first second (second :: (line ++ after)) =
        (.comment (second :: second :: reach), behind) := by
      have inside : ∀ part ∈ second :: reach, (part != '\n') = true :=
        List.forall_mem_cons.mpr ⟨noLineFeed, inReach⟩
      rw [Segment.first, if_neg (by simp [notWhite]), if_pos opens, split, ← List.cons_append,
        takeWhile_run inside ends, dropWhile_run inside ends]
    have isTail : Piece.all after <:+ Piece.all (second :: second :: (line ++ after)) := by
      rw [Piece.all, piece]
      exact List.suffix_cons _ _
    have behindListed := later (second :: second :: reach) behind (by rw [split]; rfl)
      (List.cons_ne_nil _ _) (isPart.trans isTail) agrees
    rw [Position.offset_advanceAll] at behindListed
    rw [Segment.all, segment, noTokens, sameTokens]
    exact behindListed
  have noFeeds : ∀ part ∈ line, (part != '\n') = true := by
    intro part member
    refine bne_iff_ne.mpr ?_
    rintro rfl
    exact absurd (inside _ member) (by decide)
  cases after with
  | nil => exact finish rfl noFeeds rfl List.suffix_rfl rfl
  | cons char behind =>
    have lineEnd : char = '\n' ∨ char = '\r' := by
      have ends : Piece.isLineEnd char = true := by simpa using stops
      simpa [Piece.isLineEnd] using ends
    rcases lineEnd with rfl | rfl
    · exact finish rfl noFeeds rfl List.suffix_rfl rfl
    · -- The carriage return belongs to the comment in the outline, and is a blank among the pieces.
      have white : Unicode.isWhiteSpace '\r' = true := by decide
      have feed : behind.head? = some '\n' := by
        rw [Piece.all, piece, Piece.all, Piece.first_blank white, Piece.closesComments,
          Bool.and_eq_true] at closes
        exact Piece.head?_all_eq_blank (by simpa [Piece.isComment] using closes.1)
      have returns : ('\r' != '\n') = true := by decide
      have split : line ++ '\r' :: behind = (line ++ ['\r']) ++ behind := by simp
      refine finish split ?_ (by simp [feed]) ?_ ?_
      · intro part member
        rcases List.mem_append.mp member with inLine | last
        · exact noFeeds part inLine
        · obtain rfl := List.mem_singleton.mp last
          exact returns
      · rw [Piece.all, Piece.first_blank white]
        exact List.suffix_cons _ _
      · rw [Piece.all, Piece.first_blank white, ← List.cons_append, ← List.cons_append,
          Position.advanceAll_append]
        rfl

end Listed

/-- **Cutting a sound text into segments and into tokens shows the same statements**, with the same
labels and texts. -/
theorem listed_all (source : List Char) (position : Position) {chars : List Char}
    (sound : ∀ piece ∈ Piece.all chars, piece.fault? = none)
    (closes : Piece.closesComments (Piece.all chars) = true) : Listed source position chars := by
  induction counted : chars.length using Nat.strongRecOn generalizing chars position with
  | ind size ih =>
  cases chars with
  | nil => exact .nil
  | cons char chars =>
  have later (front behind : List Char) (cut : char :: chars = front ++ behind)
      (nonempty : front ≠ []) (isPart : Piece.all behind <:+ Piece.all (char :: chars)) :
      Listed source (position.advanceAll front) behind := by
    have shorter : behind.length < size := by
      have positive := List.length_pos_iff.mpr nonempty
      rw [← counted, cut, List.length_append]
      omega
    exact ih _ shorter _ (fun piece member => sound piece (isPart.subset member))
      (Piece.closesComments_suffix isPart closes) rfl
  have isTail : Piece.all (Piece.first char chars).2 <:+ Piece.all (char :: chars) := by
    rw [Piece.all]
    exact List.suffix_cons _ _
  have next : Listed source (position.advanceAll (Piece.first char chars).1.spelling)
      (Piece.first char chars).2 :=
    later _ _ (Piece.spelling_first char chars).symm (Piece.spelling_first_ne_nil char chars) isTail
  have first := sound (Piece.first char chars).1 (by rw [Piece.all]; exact .head _)
  cases white : Unicode.isWhiteSpace char with
  | true =>
    rw [Piece.first_blank white] at next
    exact .blank white next
  | false =>
  cases opens : chars.head?.any (opensComment char) with
  | true => exact .comment white opens closes later
  | false =>
  cases numeral : Piece.startsNumeral char chars with
  | true =>
    have read := Piece.first_numeral white opens numeral
    rw [read, Piece.ofNumeral] at next first
    rw [Piece.ofNumeral] at read
    cases known : Numeral.value? (Piece.splitNumeral (char :: chars)).1 with
    | none => simp [known, Piece.fault?] at first
    | some value =>
      simp only [known] at next read
      exact .numeral known read next
  | false =>
  cases word : isWordStart char with
  | true =>
    have read := Piece.first_word white opens numeral word
    rw [read, Piece.spelling_ofWord] at next
    exact .word white opens word read next
  | false =>
  cases opener : Enclosure.ofOpener? char with
  | some enclosure =>
    have read := Piece.first_enclosed white opens numeral word opener
    rw [read, Piece.firstEnclosed] at next first
    rw [Piece.firstEnclosed] at read
    cases found : enclosure.close? chars with
    | none => simp [found, Piece.fault?] at first
    | some closed =>
      simp only [found] at next read
      exact .enclosed white opens word opener found read next
  | none =>
    have read := Piece.first_symbol white opens numeral word opener
    rw [read] at next first
    exact .symbol white opens word opener read first next

/-- In particular they stand in the same places. -/
theorem outlined (source : List Char) (position : Position) {chars : List Char}
    (sound : ∀ piece ∈ Piece.all chars, piece.fault? = none)
    (closes : Piece.closesComments (Piece.all chars) = true) : Outlined source position chars := by
  intro draft? state agrees
  rw [listed_all source position sound closes agrees, map_span_listed]

/-- **The statements of the outline stand where the tokens say.** -/
theorem outline_eq_statements (source : String) (sound : lexicalDiagnostics source = [])
    (pairs : pairsReturns source.toList = true) :
    (outline source).map StatementSpan.span =
      statements .between ((tokenize source).filter (·.kind.isSignificant)) := by
  rw [lexicalDiagnostics_eq, Piece.flatten_faults_eq_nil_iff] at sound
  have tokens : (tokenize source).filter (·.kind.isSignificant) =
      Piece.tokens .start (Piece.all source.toList) := Input.tokens_ofSource source
  rw [tokens]
  exact outlined source.toList .start sound (Piece.closesComments_of_pairsReturns pairs) .between

/-- A block of definitions takes in its query, and the words in parentheses and comments split
nothing.  What begins with a name is not listed. -/
theorem outline_eq_statements_block :
    let source := "define var a = (create) -- alter\r\nEVALUATE a evaluate b; c; ALTER"
    lexicalDiagnostics source = [] ∧ pairsReturns source.toList = true ∧
      (outline source).map StatementSpan.span =
        statements .between ((tokenize source).filter (·.kind.isSignificant)) ∧
      (outline source).map StatementSpan.span = [⟨0, 44⟩, ⟨45, 56⟩, ⟨60, 65⟩] := by
  intro source
  have sound : lexicalDiagnostics source = [] := by decide +kernel
  have pairs : pairsReturns source.toList = true := by decide +kernel
  have listed : (outline source).map StatementSpan.span = [⟨0, 44⟩, ⟨45, 56⟩, ⟨60, 65⟩] := by
    decide +kernel
  exact ⟨sound, pairs, outline_eq_statements source sound pairs, listed⟩

end DaxScript
