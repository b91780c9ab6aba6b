import DaxScript.Proofs.Token.Tidy
import DaxScript.Text.Trim

/-!
# How tokens are written

A token without faults that is no comment is written in one way for what it says, up to the letter
case of keywords and the digits of numbers (`TokenKind.IsWritten`, `Piece.isWritten_of_first`).  In
particular an enclosed text is written as its content is, so its content is found again, and no
token has white space at either end.
-/

set_option autoImplicit false

namespace DaxScript

/-! ## Enclosed texts -/

/-- **What is read between an opening and a closing character can be enclosed**, and is written as
it was. -/
theorem Enclosure.spelling_of_close? {enclosure : Enclosure} {chars : List Char} {closed : Closed}
    (found : enclosure.close? chars = some closed) :
    enclosure.CanHold closed.content ∧
      closed.spelling = enclosure.write closed.content ++ [enclosure.closer] := by
  have nothing : enclosure.write [] = [] := by simp [write, Quoted.double]
  have canHoldNothing : enclosure.CanHold [] := .inr List.not_mem_nil
  fun_induction close? enclosure chars generalizing closed with
  | case1 => cases found
  | case2 =>
    cases found
    exact ⟨canHoldNothing, by rw [nothing]; rfl⟩
  | case3 => cases found
  | case4 next later doubled ih =>
    obtain ⟨doubles, same⟩ := Bool.and_eq_true_iff.mp doubled
    obtain rfl := beq_iff_eq.mp same
    obtain ⟨inner, innerFound, rfl⟩ := Option.map_eq_some_iff.mp found
    obtain ⟨_, written⟩ := ih innerFound
    refine ⟨.inl doubles, ?_⟩
    simp [Closed.prepend, write_cons, doubles, written]
  | case5 =>
    cases found
    exact ⟨canHoldNothing, by rw [nothing]; rfl⟩
  | case6 char next later notCloser ih =>
    obtain ⟨inner, innerFound, rfl⟩ := Option.map_eq_some_iff.mp found
    obtain ⟨possible, written⟩ := ih innerFound
    refine ⟨possible.imp_right fun noCloser => ?_, ?_⟩
    · simpa [Closed.prepend, Ne.symm notCloser] using noCloser
    · simp [Closed.prepend, write_cons, notCloser, written]

/-! ## All tokens -/

/-- A keyword is found by its name in some letter case. -/
theorem Keyword.same_of_ofWord? {word : String} {keyword : Keyword}
    (found : ofWord? word = some keyword) : sameIgnoringCase keyword.name word = true :=
  List.find?_some (p := fun known : Keyword => sameIgnoringCase known.name word) found

/-- What a token that is no comment says is written with these characters. -/
inductive TokenKind.IsWritten : TokenKind → List Char → Prop where
  | number {value : Binary64} {spelling : List Char}
      (known : Numeral.value? spelling = some value) : IsWritten (.number value) spelling
  | keyword {word : Keyword} {spelling : List Char} (spelled : Piece.isWord spelling = true)
      (same : sameIgnoringCase word.name (String.ofList spelling) = true) :
      IsWritten (.keyword word) spelling
  | identifier {spelling : List Char} (spelled : Piece.isWord spelling = true) :
      IsWritten (.identifier (String.ofList spelling)) spelling
  | enclosed {enclosure : Enclosure} {content : List Char}
      (possible : enclosure.CanHold content) :
      IsWritten (enclosure.kind (String.ofList content))
        (enclosure.opener :: (enclosure.write content ++ [enclosure.closer]))
  | symbol (sign : Symbol) : IsWritten (.symbol sign) sign.spelling.toList

namespace Piece

theorem spelling_of_singleSymbol? {char : Char} {sign : Symbol}
    (single : singleSymbol? char = some sign) : sign.spelling.toList = [char] := by
  unfold singleSymbol? at single
  split at single <;> cases single <;> rfl

theorem spelling_of_doubleSymbol? {char second : Char} {sign : Symbol}
    (double : doubleSymbol? char second = some sign) : sign.spelling.toList = [char, second] := by
  unfold doubleSymbol? at double
  split at double <;> cases double <;> rfl

theorem opener_of_ofOpener? {char : Char} {enclosure : Enclosure}
    (opens : Enclosure.ofOpener? char = some enclosure) : char = enclosure.opener := by
  unfold Enclosure.ofOpener? at opens
  split at opens
  · next same => cases opens; exact same
  split at opens
  · next same => cases opens; exact same
  split at opens
  · next same => cases opens; exact same
  · cases opens

/-- **A token without faults is written as what it says.** -/
theorem isWritten_of_first {char : Char} {chars spelling : List Char} {kind : TokenKind}
    (read : (first char chars).1 = token kind spelling none) (meaning : kind.isTrivia = false) :
    kind.IsWritten spelling := by
  unfold first at read
  split at read
  · cases read
  split at read
  · cases read
    cases meaning
  split at read
  · simp only [ofNumeral] at read
    split at read
    · next value known =>
      cases read
      exact .number known
    · cases read
  split at read
  · next starts =>
    have spelled : isWord (char :: chars.takeWhile isWordPart) = true := by
      simp [isWord, starts]
    simp only [ofWord] at read
    split at read
    · next keyword found =>
      cases read
      exact .keyword spelled (Keyword.same_of_ofWord? found)
    · cases read
      exact .identifier spelled
  split at read
  · next enclosure opens =>
    simp only [firstEnclosed] at read
    split at read
    · next closed found =>
      obtain ⟨possible, written⟩ := Enclosure.spelling_of_close? found
      cases read
      rw [opener_of_ofOpener? opens, written]
      exact .enclosed possible
    · cases read
  · simp only [firstSymbol] at read
    split at read
    · next sign double =>
      cases chars with
      | nil => cases double
      | cons second later =>
        cases read
        have written := spelling_of_doubleSymbol? double
        rw [List.take_succ_cons, List.take_zero, ← written]
        exact .symbol sign
    · split at read
      · next sign single =>
        cases read
        rw [← spelling_of_singleSymbol? single]
        exact .symbol sign
      · cases read

/-- Where nothing is wrong with the pieces every token is written as what it says. -/
theorem isWritten_of_mem_tokens {position : Position} {chars : List Char} {token : Token}
    (sound : ∀ piece ∈ all chars, piece.fault? = none)
    (member : token ∈ tokens position (all chars)) :
    token.kind.IsWritten token.spelling.toList := by
  fun_induction all chars generalizing position with
  | case1 => cases member
  | case2 char chars ih =>
    rw [List.forall_mem_cons] at sound
    rcases List.mem_append.mp member with own | later
    · obtain ⟨placed, meaning⟩ := mem_ownTokens_iff.mp own
      cases read : (first char chars).1 with
      | token kind spelling fault =>
        obtain rfl : fault = none := by
          have noFault := sound.1
          rwa [read] at noFault
        rw [read] at placed
        cases placed
        rw [Token.place, String.toList_ofList]
        exact isWritten_of_first read meaning
      | _ =>
        rw [read] at placed
        cases placed
    · exact ih sound.2 later

/-- A keyword is all of a word. -/
theorem head?_of_keyword {char : Char} {chars spelling rest : List Char} {word : Keyword}
    {fault : Option LexicalFault}
    (read : first char chars = (token (.keyword word) spelling fault, rest)) :
    rest.head?.any isWordPart = false := by
  unfold first at read
  split at read
  · cases read
  split at read
  · cases read
  split at read
  · simp only [ofNumeral] at read
    split at read <;> cases read
  split at read
  · rw [← (Prod.mk.inj read).2]
    exact head?_dropWhile_any isWordPart chars
  split at read
  · next enclosure _ =>
    simp only [firstEnclosed] at read
    split at read <;> cases enclosure <;> cases read
  · simp only [firstSymbol] at read
    split at read
    · cases read
    · split at read <;> cases read

end Piece

/-! ## The ends of tokens -/

/-- No white space stands at either end of the characters. -/
structure Tight (chars : List Char) : Prop where
  first : chars.head?.any Unicode.isWhiteSpace = false
  last : chars.getLast?.any Unicode.isWhiteSpace = false

namespace Tight

/-- Characters that begin like one text and end like another. -/
theorem of_ends {front behind chars : List Char} (opening : Tight front) (closing : Tight behind)
    (someFront : front ≠ []) (someBehind : behind ≠ []) (inFront : front <+: chars)
    (isBehind : behind <:+ chars) : Tight chars where
  first := by
    obtain ⟨later, rfl⟩ := inFront
    obtain ⟨char, front, rfl⟩ := List.exists_cons_of_ne_nil someFront
    exact opening.first
  last := by
    obtain ⟨earlier, rfl⟩ := isBehind
    have last := closing.last
    rw [List.getLast?_eq_some_getLast someBehind] at last
    rw [List.getLast?_append, List.getLast?_eq_some_getLast someBehind]
    exact last

/-- Characters none of which is white space. -/
theorem of_forall {chars : List Char} (none : ∀ char ∈ chars, Unicode.isWhiteSpace char = false) :
    Tight chars where
  first := by
    cases found : chars.head? with
    | none => rfl
    | some char => exact none char (List.mem_of_head? found)
  last := by
    cases found : chars.getLast? with
    | none => rfl
    | some char => exact none char (List.mem_of_getLast? found)

/-- There is nothing to trim. -/
theorem trim_eq {chars : List Char} (tight : Tight chars) : trim chars = chars := by
  have start : chars.dropWhile Unicode.isWhiteSpace = chars := by
    cases chars with
    | nil => rfl
    | cons char chars => exact List.dropWhile_cons_of_neg (by simpa using tight.first)
  have stop : chars.reverse.dropWhile Unicode.isWhiteSpace = chars.reverse := by
    have last := tight.last
    rw [← List.head?_reverse] at last
    cases same : chars.reverse with
    | nil => rfl
    | cons char others =>
      rw [same] at last
      exact List.dropWhile_cons_of_neg (by simpa using last)
  rw [trim, trimStart, start, trimEnd, stop, List.reverse_reverse]

end Tight

namespace TokenKind.IsWritten

variable {kind : TokenKind} {spelling : List Char}

theorem tight_of_isWord (spelled : Piece.isWord spelling = true) : Tight spelling := by
  refine .of_forall fun char member => isWhiteSpace_of_isWordPart ?_
  cases spelling with
  | nil => cases member
  | cons head tail =>
    obtain ⟨starts, goesOn⟩ := Bool.and_eq_true_iff.mp spelled
    rcases List.mem_cons.mp member with rfl | member
    · exact isWordPart_of_isWordStart starts
    · exact List.all_eq_true.mp goesOn char member

/-- A keyword is written in some letter case. -/
theorem same_of_keyword {word : Keyword} (written : IsWritten (.keyword word) spelling) :
    sameIgnoringCase word.name (String.ofList spelling) = true := by
  generalize isWord : TokenKind.keyword word = kind at written
  cases written with
  | keyword _ same =>
    cases isWord
    exact same
  | @enclosed enclosure => cases enclosure <;> cases isWord
  | _ => cases isWord

/-- **No token has white space at either end.** -/
theorem tight (written : kind.IsWritten spelling) : Tight spelling := by
  cases written with
  | number known =>
    refine .of_forall fun char member => isWhiteSpace_of_isWordPart ?_
    rcases Piece.numeral_cases known with
      ⟨_, digits⟩ | ⟨whole, fraction, rfl, digits, places, _⟩
    · exact isWordPart_of_isDigit (digits char member)
    · simp only [List.mem_append, List.mem_cons] at member
      rcases member with inWhole | rfl | inFraction
      · exact isWordPart_of_isDigit (digits char inWhole)
      · decide
      · exact isWordPart_of_isDigit (places char inFraction)
  | keyword spelled => exact tight_of_isWord spelled
  | identifier spelled => exact tight_of_isWord spelled
  | @enclosed enclosure content possible =>
    have opening : Tight [enclosure.opener] := by cases enclosure <;> exact ⟨rfl, rfl⟩
    have closing : Tight [enclosure.closer] := by cases enclosure <;> exact ⟨rfl, rfl⟩
    exact opening.of_ends closing (List.cons_ne_nil _ _) (List.cons_ne_nil _ _) ⟨_, rfl⟩
      ⟨enclosure.opener :: enclosure.write content, rfl⟩
  | symbol sign => cases sign <;> exact ⟨rfl, rfl⟩

end TokenKind.IsWritten

end DaxScript
