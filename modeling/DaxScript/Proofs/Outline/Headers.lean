import DaxScript.Outline.Label
import DaxScript.Proofs.Grammar.StatementRule
import DaxScript.Proofs.LosslessTokens
import DaxScript.Proofs.Token.Spelling

/-!
# The words in front of a measure, as characters and as pieces

A label is read off the characters of a statement, with no regard to the tokens that these make.
It comes to the same: a word of a label is a keyword, a table is a token that may name one, a name
in brackets is a token as well, and what is trimmed in between are blanks.  So a label is found
where the first tokens are those of a header, comments counted as tokens (`Piece.label?_text`).

The pieces are those of a text that goes on behind them.  So a word is looked at with the character
that ended it, wherever the statement ends.

Two kinds of tokens pass for a table that is none.  A run of characters of words may begin with a
numeral or a point, and between quotes there may be nothing (`TokenKind.passesForTable`).
-/

set_option autoImplicit false

namespace DaxScript

open Outline

/-- Whether a token names no table and may still be read as one where a label is looked for. -/
def TokenKind.passesForTable : TokenKind → Bool
  | number _ => true
  | symbol .dot => true
  | quotedName name => name.isEmpty
  | _ => false

/-! ## The header of a measure -/

/-- The tokens behind the two words that a measure may begin with. -/
def behindWords? : List Token → Option (List Token)
  | first :: second :: others =>
    if (first.kind = .keyword .create ∨ first.kind = .keyword .define) ∧
        second.kind = .keyword .measure then
      some others
    else none
  | _ => none

/-- How a token that names a measure is shown in a label. -/
def TokenKind.bracketed? : TokenKind → Option String
  | bracketName name => if name.isEmpty then none else some ("[" ++ name ++ "]")
  | _ => none

/-- The table and the measure that tokens begin with, the table as it is written. -/
def namedLabel? : List Token → Option String
  | [] => none
  | table :: others =>
    if table.kind.namesTable then
      (others.head?.bind (·.kind.bracketed?)).map (table.spelling ++ ·)
    else none

/-- The table and the measure that tokens begin to define. -/
def definedLabel? (tokens : List Token) : Option String :=
  (behindWords? tokens).bind namedLabel?

/-- Tokens begin with the words in front of a measure, and go on with others. -/
theorem behindWords?_eq_some_iff {tokens others : List Token} :
    behindWords? tokens = some others ↔ ∃ first second, tokens = first :: second :: others ∧
      (first.kind = .keyword .create ∨ first.kind = .keyword .define) ∧
      second.kind = .keyword .measure := by
  constructor
  · intro found
    unfold behindWords? at found
    split at found
    · next first second _ =>
      split at found
      · next words =>
        obtain rfl := Option.some.inj found
        exact ⟨first, second, rfl, words⟩
      · cases found
    · cases found
  · rintro ⟨first, second, rfl, words⟩
    exact if_pos words

/-- The four tokens that a label is read off. -/
inductive Header : List Token → String → Prop where
  | intro {first second table name : Token} {shown : String}
      (opens : first.kind = .keyword .create ∨ first.kind = .keyword .define)
      (goesOn : second.kind = .keyword .measure) (tableNamed : table.kind.namesTable = true)
      (measureNamed : name.kind.bracketed? = some shown) :
      Header [first, second, table, name] (table.spelling ++ shown)

namespace Header

variable {header more : List Token} {label : String} (isHeader : Header header label)
include isHeader

theorem length_eq : header.length = 4 := by
  cases isHeader
  rfl

/-- They all mean something, and none of them is a semicolon. -/
theorem means {token : Token} (member : token ∈ header) :
    token.kind.isSignificant = true ∧ token.kind ≠ .symbol .semicolon := by
  cases isHeader with
  | @intro first second table name _ opens goesOn tableNamed measureNamed =>
    simp only [List.mem_cons, List.not_mem_nil, or_false] at member
    rcases member with rfl | rfl | rfl | rfl
    · rcases opens with same | same <;> rw [same] <;> exact ⟨rfl, by decide⟩
    · rw [goesOn]
      exact ⟨rfl, by decide⟩
    · cases same : token.kind <;> rw [same] at tableNamed <;>
        first | exact absurd tableNamed Bool.false_ne_true | exact ⟨rfl, fun other => nomatch other⟩
    · cases same : token.kind <;> rw [same] at measureNamed <;>
        first | cases measureNamed | exact ⟨rfl, fun other => nomatch other⟩

/-- They are found again among those of a list that mean something. -/
theorem filter_append : (header ++ more).filter (·.kind.isSignificant) =
    header ++ more.filter (·.kind.isSignificant) := by
  rw [List.filter_append, List.filter_eq_self.mpr fun token member => (isHeader.means member).1]

theorem definedLabel?_append : definedLabel? (header ++ more) = some label := by
  cases isHeader with
  | @intro first second table name shown opens goesOn tableNamed measureNamed =>
    have behind : behindWords? ([first, second, table, name] ++ more) =
        some (table :: name :: more) := if_pos ⟨opens, goesOn⟩
    rw [definedLabel?, behind, Option.bind_some, namedLabel?, if_pos tableNamed]
    simp [measureNamed]

end Header

/-- A label is defined by the first four tokens. -/
theorem exists_header {tokens : List Token} {label : String}
    (defined : definedLabel? tokens = some label) :
    ∃ header more, tokens = header ++ more ∧ Header header label := by
  obtain ⟨others, found, named⟩ := Option.bind_eq_some_iff.mp defined
  obtain ⟨first, second, rfl, opens, goesOn⟩ := behindWords?_eq_some_iff.mp found
  cases others with
  | nil => cases named
  | cons table others =>
    rw [namedLabel?] at named
    split at named
    · next tableNamed =>
      obtain ⟨shown, isShown, rfl⟩ := Option.map_eq_some_iff.mp named
      cases others with
      | nil => cases isShown
      | cons name more =>
        exact ⟨[first, second, table, name], more, rfl, .intro opens goesOn tableNamed isShown⟩
    · cases named

/-! ## Words of a text -/

theorem sameIgnoringCase_comm (first second : String) :
    sameIgnoringCase first second = sameIgnoringCase second first :=
  Bool.beq_comm

namespace Outline

theorem stripWord?_eq_some_iff {word : String} {text rest : List Char} :
    stripWord? word text = some rest ↔
      ∃ spelling, text = spelling ++ rest ∧
        sameIgnoringCase word (String.ofList spelling) = true ∧
        rest.head?.any isWordPart = false := by
  simp only [stripWord?, sameIgnoringCase_comm _ word]
  constructor
  · intro found
    split at found
    · next both =>
      cases found
      exact ⟨_, (List.take_append_drop _ _).symm, both.1, by simpa using both.2⟩
    · cases found
  · rintro ⟨spelling, rfl, same, stops⟩
    have size : spelling.length = word.length := by
      have upper := congrArg List.length (sameIgnoringCase_iff.mp same)
      simpa [String.length_toList] using upper.symm
    rw [← size, List.take_left, List.drop_left, if_pos ⟨same, by simp [stops]⟩]

end Outline

namespace Piece

/-! ## Pieces in front of a text -/

/-- The pieces of a text fit together, wherever the text goes on behind them. -/
theorem fitTogether_of_all {pieces behind : List Piece} {rest : List Char}
    (cut : all (text pieces ++ rest) = pieces ++ behind) : FitTogether rest pieces := by
  induction pieces with
  | nil => trivial
  | cons piece pieces ih =>
    rw [text_cons, List.append_assoc] at cut
    obtain ⟨char, spelled, read, later⟩ := all_eq_cons cut
    exact ⟨⟨char, _, spelled, read⟩, ih later⟩

/-- What stops a run in front of a text stops it in front of part of the text. -/
theorem head?_any_of_append {belongs : Char → Bool} {front rest : List Char}
    (stops : (front ++ rest).head?.any belongs = false) : front.head?.any belongs = false := by
  cases front with
  | nil => rfl
  | cons => exact stops

section Together

variable {rest : List Char} {pieces later : List Piece} {kind : TokenKind} {spelling : List Char}

/-- **Behind white space a text has come to its end or to its first token.** -/
theorem trimStart_cases (together : FitTogether rest pieces)
    (sound : ∀ piece ∈ pieces, piece.fault? = none) (position : Position) :
    trimStart (text pieces) = [] ∧ allTokens position pieces = [] ∨
      ∃ kind spelling later here,
        trimStart (text pieces) = text (token kind spelling none :: later) ∧
          FitTogether rest (token kind spelling none :: later) ∧
          (∀ piece ∈ later, piece.fault? = none) ∧
          allTokens position pieces =
            Token.place kind here spelling :: allTokens (here.advanceAll spelling) later := by
  induction pieces generalizing position with
  | nil => exact .inl ⟨rfl, rfl⟩
  | cons piece pieces ih =>
    obtain ⟨⟨char, tail, spelled, read⟩, others⟩ := together
    rw [List.forall_mem_cons] at sound
    cases piece with
    | blank found =>
      obtain ⟨rfl, rfl⟩ := List.cons.inj spelled
      have white := isWhiteSpace_of_blank (congrArg Prod.fst read)
      have trimmed : trimStart (text (blank found :: pieces)) = trimStart (text pieces) :=
        List.dropWhile_cons_of_pos white
      rw [trimmed]
      exact ih others sound.2 _
    | stray => cases sound.1
    | token kind spelling fault =>
      obtain rfl : fault = none := sound.1
      have notWhite : Unicode.isWhiteSpace char = false := by
        refine Bool.eq_false_iff.mpr fun white => ?_
        rw [first_blank white] at read
        cases read
      refine .inr ⟨kind, spelling, pieces, position, ?_, ⟨⟨char, tail, spelled, read⟩, others⟩,
        sound.2, rfl⟩
      obtain rfl : spelling = char :: tail := spelled
      exact List.dropWhile_cons_of_neg (by simp [notWhite])

/-- What begins like a word is a whole word, with the text behind it and with part of that. -/
theorem word_text {char : Char} {tail : List Char}
    (together : FitTogether rest (token kind (char :: tail) none :: later))
    (starts : isWordStart char = true) :
    token kind (char :: tail) none = ofWord (char :: tail) ∧
      (∀ part ∈ tail, isWordPart part = true) ∧ (text later).head?.any isWordPart = false := by
  obtain ⟨_, _, spelled, read⟩ := together.1
  obtain ⟨rfl, rfl⟩ := List.cons.inj spelled
  obtain ⟨isWord, behind⟩ := Prod.mk.inj (read.symm.trans (first_of_isWordStart starts _))
  have run := congrArg Piece.spelling isWord
  rw [spelling_ofWord] at run
  obtain ⟨_, run⟩ := List.cons.inj run
  refine ⟨?_, ?_, ?_⟩
  · rwa [← run] at isWord
  · rw [run]
    exact belongs_of_mem_takeWhile isWordPart _
  · have stops := head?_dropWhile_any isWordPart (tail ++ (text later ++ rest))
    rw [← behind] at stops
    exact head?_any_of_append stops

/-- A keyword at the start of a text is the first piece. -/
theorem stripWord?_text (together : FitTogether rest (token kind spelling none :: later))
    (keyword : Keyword) :
    stripWord? keyword.name (text (token kind spelling none :: later)) =
      if kind = .keyword keyword then some (text later) else none := by
  obtain ⟨char, tail, spelled, read⟩ := together.1
  obtain rfl : spelling = char :: tail := spelled
  split
  · next isKeyword =>
    subst isKeyword
    have written := isWritten_of_first (congrArg Prod.fst read) rfl
    have same := written.same_of_keyword
    have stops := (word_text together (Keyword.isWordStart_of_same same char (.head _))).2.2
    exact stripWord?_eq_some_iff.mpr ⟨_, rfl, same, stops⟩
  · next noKeyword =>
    refine Option.eq_none_iff_forall_ne_some.mpr fun after found => noKeyword ?_
    obtain ⟨word, split, same, ends⟩ := stripWord?_eq_some_iff.mp found
    have letters := Keyword.isWordStart_of_same same
    obtain ⟨head, others, rfl⟩ := List.exists_cons_of_ne_nil (Keyword.ne_nil_of_same same)
    obtain ⟨rfl, behind⟩ : char = head ∧ tail ++ text later = others ++ after :=
      List.cons.inj split
    obtain ⟨isWord, goesOn, stops⟩ := word_text together (letters char (.head _))
    have goesOn' : ∀ part ∈ others, isWordPart part = true := fun part member =>
      isWordPart_of_isWordStart (letters part (.tail _ member))
    obtain rfl : tail = others := by
      rw [← takeWhile_run goesOn stops, ← takeWhile_run goesOn' ends]
      exact congrArg _ behind
    rw [ofWord, Keyword.ofWord?_of_same same] at isWord
    exact (Piece.token.inj isWord).1

/-- What is enclosed is enclosed in the same way in front of part of the text behind it. -/
theorem close?_text {enclosure : Enclosure} {tail : List Char}
    (together : FitTogether rest (token kind (enclosure.opener :: tail) none :: later)) :
    ∃ content, kind = enclosure.kind (String.ofList content) ∧
      enclosure.close? (tail ++ text later) = some ⟨content, tail, text later⟩ := by
  obtain ⟨_, _, spelled, read⟩ := together.1
  obtain ⟨rfl, rfl⟩ := List.cons.inj spelled
  rw [first_opener, firstEnclosed] at read
  split at read
  · next closed found =>
    obtain ⟨isToken, behind⟩ := Prod.mk.inj read
    obtain ⟨rfl, sameSpelling, _⟩ := Piece.token.inj isToken
    obtain ⟨_, rfl⟩ := List.cons.inj sameSpelling
    refine ⟨closed.content, rfl, Enclosure.close?_exchange found fun doubles => ?_⟩
    have single := Enclosure.head?_rest_of_doubles found doubles
    rw [behind] at single
    exact head?_any_of_append single
  · cases (Piece.token.inj (Prod.mk.inj read).1).2.2

theorem splitTable?_eq_none {char : Char} (noQuote : char ≠ '\'') (noWord : isWordPart char = false)
    (chars : List Char) : splitTable? (char :: chars) = none := by
  rw [splitTable?, List.takeWhile_cons_of_neg (by simp [noWord])]
  · rfl
  · exact fun _ same => noQuote (List.cons.inj same).1

/-- Only a comment is no token of the grammar. -/
theorem opensComment_of_isTrivia {char : Char} {chars rest : List Char}
    (read : first char chars = (token kind spelling none, rest)) (trivia : kind.isTrivia = true) :
    chars.head?.any (opensComment char) = true := by
  unfold first at read
  split at read
  · cases read
  split at read
  · next opens => exact opens
  split at read
  · simp only [ofNumeral] at read
    split at read <;> cases read
    cases trivia
  split at read
  · simp only [ofWord] at read
    split at read <;> cases read <;> cases trivia
  split at read
  · next enclosure _ =>
    simp only [firstEnclosed] at read
    split at read <;> cases read
    cases enclosure <;> cases trivia
  · simp only [firstSymbol] at read
    split at read
    · cases read
      cases trivia
    · split at read <;> cases read
      cases trivia

/-- **A table at the start of a text is the first piece**, unless a piece passes for one. -/
theorem splitTable?_text (together : FitTogether rest (token kind spelling none :: later))
    (noPass : kind.passesForTable = false) :
    splitTable? (text (token kind spelling none :: later)) =
      if kind.namesTable then some (spelling, text later) else none := by
  obtain ⟨char, tail, spelled, read⟩ := together.1
  have begins : text (token kind spelling none :: later) = char :: (tail ++ text later) := by
    rw [text_cons, spelled]
    rfl
  have word (isWord : isWord spelling = true) (named : kind.namesTable = true) :
      splitTable? (text (token kind spelling none :: later)) =
        if kind.namesTable then some (spelling, text later) else none := by
    obtain rfl : spelling = char :: tail := spelled
    obtain ⟨starts, goesOn⟩ := Bool.and_eq_true_iff.mp isWord
    have noQuote : char ≠ '\'' := by
      rintro rfl
      exact absurd starts (by decide)
    have stops := (word_text together starts).2.2
    have inside : ∀ part ∈ char :: tail, isWordPart part = true :=
      List.forall_mem_cons.mpr
        ⟨isWordPart_of_isWordStart starts, List.all_eq_true.mp goesOn⟩
    rw [if_pos named, begins, splitTable?, ← List.cons_append, takeWhile_run inside stops,
      dropWhile_run inside stops]
    · rfl
    · exact fun _ same => noQuote (List.cons.inj same).1
  cases trivia : kind.isTrivia with
  | true =>
    -- A comment begins like no table.
    have opens := opensComment_of_isTrivia read trivia
    have noWord : isWordPart char = false := by
      refine Bool.eq_false_iff.mpr fun part => ?_
      rw [head?_opensComment_of_isWordPart part] at opens
      cases opens
    have noQuote : char ≠ '\'' := by
      rintro rfl
      rw [head?_opensComment_of_ne (by decide)] at opens
      cases opens
    have noTable : kind.namesTable = false := by
      cases kind <;> first | rfl | cases trivia
    rw [if_neg (by simp [noTable]), begins]
    exact splitTable?_eq_none noQuote noWord _
  | false =>
    cases isWritten_of_first (congrArg Prod.fst read) trivia with
    | number => cases noPass
    | keyword isWord => exact word isWord rfl
    | identifier isWord => exact word isWord rfl
    | @enclosed enclosure content =>
      obtain ⟨rfl, rfl⟩ := List.cons.inj spelled
      cases enclosure with
      | quotedName =>
        obtain ⟨_, _, found⟩ := @close?_text _ _ _ .quotedName _ together
        have filled : (String.ofList content).isEmpty = false := noPass
        have named : (Enclosure.quotedName.kind (String.ofList content)).namesTable = true := by
          simp only [Enclosure.kind, TokenKind.namesTable, filled, Bool.not_false]
        rw [if_pos named, begins]
        exact congrArg (Option.map _) found
      | _ =>
        rw [begins]
        exact splitTable?_eq_none (by decide) (by decide) _
    | symbol sign =>
      rw [begins]
      cases sign with
      | dot => cases noPass
      | _ =>
        obtain ⟨rfl, _⟩ := List.cons.inj spelled
        exact splitTable?_eq_none (by decide) (by decide) _

/-- **A name in brackets at the start of a text is the first piece.** -/
theorem bracketedName?_text (together : FitTogether rest (token kind spelling none :: later)) :
    (bracketedName? (text (token kind spelling none :: later))).map
        (fun name => String.ofList ('[' :: (name ++ [']']))) = kind.bracketed? := by
  obtain ⟨char, tail, spelled, read⟩ := together.1
  have begins : text (token kind spelling none :: later) = char :: (tail ++ text later) := by
    rw [text_cons, spelled]
    rfl
  rw [begins]
  by_cases opens : char = '['
  · subst opens
    obtain rfl : spelling = '[' :: tail := spelled
    obtain ⟨content, rfl, found⟩ := @close?_text _ _ _ .bracketName _ together
    obtain ⟨possible, written⟩ := Enclosure.spelling_of_close? found
    have noCloser : ']' ∉ content := possible.resolve_left (by decide)
    have written : tail = content ++ [']'] := written
    have inside : ∀ part ∈ content, (part != ']') = true := fun part member =>
      bne_iff_ne.mpr fun same => noCloser (same ▸ member)
    have run : (tail ++ text later).takeWhile (· != ']') = content := by
      rw [written, List.append_assoc]
      exact takeWhile_run inside (by simp)
    have longer : content.length ≠ (tail ++ text later).length := by
      simp [written]
    simp only [bracketedName?, run, longer, or_false, Enclosure.kind, TokenKind.bracketed?]
    cases content with
    | nil => rfl
    | cons => simp [String.append_assoc]
  · have noName : kind.bracketed? = none := by
      cases trivia : kind.isTrivia with
      | true => cases kind <;> first | rfl | cases trivia
      | false =>
        cases isWritten_of_first (congrArg Prod.fst read) trivia with
        | @enclosed enclosure =>
          cases enclosure with
          | bracketName => exact absurd (List.cons.inj spelled).1.symm opens
          | _ => rfl
        | _ => rfl
    rw [noName, bracketedName?]
    · rfl
    · exact fun _ same => opens (List.cons.inj same).1

/-! ## Labels -/

/-- What a label says about the text behind its words. -/
def labelBehind? (chars : List Char) : Option (List Char) := do
  let (table, rest) ← splitTable? (trimStart chars)
  let name ← bracketedName? (trimStart rest)
  some (table ++ '[' :: (name ++ [']']))

theorem label?_eq (chars : List Char) :
    label? chars =
      (((stripWord? "CREATE" chars).or (stripWord? "DEFINE" chars)).bind fun behind =>
        stripWord? "MEASURE" (trimStart behind)).bind labelBehind? := by
  rw [label?, Option.bind_assoc]
  rfl

section Behind

variable (together : FitTogether rest pieces) (sound : ∀ piece ∈ pieces, piece.fault? = none)
  (position : Position)
include together sound

/-- A name in brackets is the first token behind white space. -/
theorem bracketedName?_trimStart :
    (bracketedName? (trimStart (text pieces))).map
        (fun name => String.ofList ('[' :: (name ++ [']']))) =
      (allTokens position pieces).head?.bind (·.kind.bracketed?) := by
  rcases trimStart_cases together sound position with
    ⟨none, noTokens⟩ | ⟨kind, spelling, later, here, begins, together, _, tokens⟩
  · rw [none, noTokens]
    rfl
  · rw [begins, tokens, bracketedName?_text together]
    rfl

/-- A table and a name in brackets are the first two tokens behind white space. -/
theorem labelBehind?_text
    (noPass : ∀ table ∈ (allTokens position pieces).head?, table.kind.passesForTable = false) :
    (labelBehind? (text pieces)).map String.ofList = namedLabel? (allTokens position pieces) := by
  rw [labelBehind?]
  rcases trimStart_cases together sound position with
    ⟨none, noTokens⟩ | ⟨kind, spelling, later, here, begins, together, sound, tokens⟩
  · rw [none, noTokens]
    rfl
  rw [tokens] at noPass ⊢
  have name := bracketedName?_trimStart together.2 sound (here.advanceAll spelling)
  rw [begins, splitTable?_text together (noPass _ rfl), namedLabel?, ← name]
  by_cases named : kind.namesTable = true
  · rw [if_pos named, Token.place, if_pos named]
    simp only [Option.bind_eq_bind, Option.bind_some]
    cases bracketedName? (trimStart (text later)) with
    | none => rfl
    | some content => exact congrArg some String.ofList_append
  · rw [if_neg named, Token.place, if_neg named]
    rfl

end Behind

/-- **The label of a text is the one that its first tokens define**, comments counted as tokens,
unless the third of them passes for a table. -/
theorem label?_text {position : Position}
    (together : FitTogether rest (token kind spelling none :: later))
    (sound : ∀ piece ∈ later, piece.fault? = none)
    (noPass : ∀ others ∈ behindWords?
        (Token.place kind position spelling :: allTokens (position.advanceAll spelling) later),
      ∀ table ∈ others.head?, table.kind.passesForTable = false) :
    (label? (text (token kind spelling none :: later))).map String.ofList =
      definedLabel?
        (Token.place kind position spelling :: allTokens (position.advanceAll spelling) later) := by
  have create : stripWord? "CREATE" (text (token kind spelling none :: later)) = _ :=
    stripWord?_text together .create
  have define : stripWord? "DEFINE" (text (token kind spelling none :: later)) = _ :=
    stripWord?_text together .define
  have first : (stripWord? "CREATE" (text (token kind spelling none :: later))).or
      (stripWord? "DEFINE" (text (token kind spelling none :: later))) =
        if kind = .keyword .create ∨ kind = .keyword .define then some (text later) else none := by
    rw [create, define]
    by_cases isCreate : kind = .keyword .create <;> simp [isCreate]
  rw [label?_eq, first, definedLabel?]
  by_cases begins : kind = .keyword .create ∨ kind = .keyword .define
  · rw [if_pos begins, Option.bind_some]
    rcases trimStart_cases together.2 sound (position.advanceAll spelling) with
      ⟨none, noTokens⟩ | ⟨second, written, others, here, front, together, sound, tokens⟩
    · rw [none, noTokens]
      rfl
    rw [tokens] at noPass ⊢
    have measure : stripWord? "MEASURE" (text (token second written none :: others)) = _ :=
      stripWord?_text together .measure
    rw [front, measure]
    by_cases goesOn : second = .keyword .measure
    · have behind : behindWords? (Token.place kind position spelling ::
          Token.place second here written :: allTokens (here.advanceAll written) others) =
          some (allTokens (here.advanceAll written) others) := if_pos ⟨begins, goesOn⟩
      rw [if_pos goesOn, behind]
      exact labelBehind?_text together.2 sound _ (noPass _ behind)
    · rw [if_neg goesOn, behindWords?, if_neg fun both => goesOn both.2]
      rfl
  · have behind (tokens : List Token) :
        behindWords? (Token.place kind position spelling :: tokens) = none := by
      cases tokens with
      | nil => rfl
      | cons => exact if_neg fun both => begins both.1
    rw [if_neg begins, behind]
    rfl

end Together

end Piece

end DaxScript
