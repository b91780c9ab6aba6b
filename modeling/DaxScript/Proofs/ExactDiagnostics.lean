import DaxScript.Proofs.LosslessTokens
import DaxScript.Proofs.Token.Faults

/-!
# What is wrong with a text is told exactly

A reader gives the tokens of a source one at a time and tells what is wrong whenever it is asked.
In whatever order it is asked, it gives what there is to give in the order of the source, and once
it has come to the end and nothing is left to tell, it has given everything
(`TokenReader.run_keeps`).

What has been told then is neither too much nor too little (`ExactlyTold`): every character is told
that lies in no token and is no white space, and every token that is opened and never closed.
Nothing is told twice, since the offsets go up.  Whether a token is closed depends on all of the
text behind its opening character, but where it ends if it is not depends on its line only.  The
text behind the line is cut again, so that each opening character in it is considered by itself.
-/

set_option autoImplicit false

namespace DaxScript

/-! ## Readers that are asked in any order -/

namespace TokenReader

/-- What a reader can be asked for. -/
inductive Request where
  /-- The next token. -/
  | next
  /-- What is wrong with the text of the tokens that have been read. -/
  | takeFaults
  deriving DecidableEq

/-- What a reader has given, and the reader that is left. -/
structure Readout where
  tokens : List Token
  faults : List Diagnostic
  reader : TokenReader
  deriving DecidableEq

/-- What is given for a single request. -/
def serve (reader : TokenReader) : Request → Readout
  | .next => ⟨reader.next.1.toList, [], reader.next.2⟩
  | .takeFaults => ⟨[], reader.takeFaults.1, reader.takeFaults.2⟩

/-- What is given for one request after the other. -/
def run (reader : TokenReader) : List Request → Readout
  | [] => ⟨[], [], reader⟩
  | request :: requests =>
    let now := reader.serve request
    let later := now.reader.run requests
    ⟨now.tokens ++ later.tokens, now.faults ++ later.faults, later.reader⟩

/-- The tokens that are still to be given. -/
def dueTokens (reader : TokenReader) : List Token :=
  reader.lexemes.map (·.token)

/-- What is still to be told. -/
def dueFaults (reader : TokenReader) : List Diagnostic :=
  reader.faults ++ reader.lexemes.flatMap (·.faults)

/-- What is given is what was due, and what is due afterwards comes behind it. -/
theorem serve_keeps (reader : TokenReader) (request : Request) :
    (reader.serve request).tokens ++ (reader.serve request).reader.dueTokens = reader.dueTokens ∧
      (reader.serve request).faults ++ (reader.serve request).reader.dueFaults =
        reader.dueFaults := by
  obtain ⟨lexemes, faults⟩ := reader
  cases request with
  | takeFaults => exact ⟨rfl, rfl⟩
  | next =>
    cases lexemes with
    | nil => exact ⟨rfl, rfl⟩
    | cons lexeme lexemes => exact ⟨rfl, by simp [serve, next, dueFaults]⟩

/-- **Nothing is lost, given twice or out of order**, in whatever order a reader is asked. -/
theorem run_keeps (reader : TokenReader) (requests : List Request) :
    (reader.run requests).tokens ++ (reader.run requests).reader.dueTokens = reader.dueTokens ∧
      (reader.run requests).faults ++ (reader.run requests).reader.dueFaults =
        reader.dueFaults := by
  induction requests generalizing reader with
  | nil => exact ⟨rfl, rfl⟩
  | cons request requests ih =>
    obtain ⟨tokensNow, faultsNow⟩ := reader.serve_keeps request
    obtain ⟨tokensLater, faultsLater⟩ := ih (reader.serve request).reader
    rw [run, List.append_assoc, List.append_assoc, tokensLater, faultsLater]
    exact ⟨tokensNow, faultsNow⟩

/-- A reader that has come to the end of a source and has nothing left to tell has given all. -/
theorem run_ofSource {source : String} {requests : List Request}
    (ended : ∃ token ∈ ((ofSource source).run requests).tokens, token.kind = .endOfInput)
    (drained : ((ofSource source).run requests).reader.faults = []) :
    ((ofSource source).run requests).tokens = tokenize source ∧
      ((ofSource source).run requests).faults = lexicalDiagnostics source := by
  obtain ⟨tokens, faults⟩ := (ofSource source).run_keeps requests
  obtain ⟨token, given, isEnd⟩ := ended
  have all : (ofSource source).dueTokens = tokenize source := rfl
  -- Only the last token is the end of the input, so none is due behind it.
  have nothingDue : ((ofSource source).run requests).reader.dueTokens = [] := by
    rcases List.eq_nil_or_concat ((ofSource source).run requests).reader.dueTokens with
      none | ⟨front, last, due⟩
    · exact none
    · rw [due, all, tokenize_eq, List.concat_eq_append, ← List.append_assoc] at tokens
      obtain ⟨others, _⟩ := List.append_inj' tokens rfl
      have isOther := List.mem_append_left front given
      rw [others] at isOther
      obtain ⟨_, _, _, _, _, _, rfl, notEnd, _⟩ := Piece.exists_of_mem_source isOther
      exact absurd isEnd notEnd
  have noLexemes : ((ofSource source).run requests).reader.lexemes = [] :=
    List.map_eq_nil_iff.mp nothingDue
  rw [nothingDue, List.append_nil] at tokens
  rw [dueFaults, drained, noLexemes, List.flatMap_nil, List.append_nil, List.append_nil] at faults
  exact ⟨tokens, faults⟩

end TokenReader

/-! ## Diagnostics of pieces -/

namespace Piece

/-- A piece of a text is the first one of the text from its start on. -/
theorem first_of_cut {chars : List Char} {front behind : List Piece} {piece : Piece}
    (cut : all chars = front ++ piece :: behind) :
    ∃ char later, chars = text front ++ char :: later ∧
      first char later = (piece, text behind) := by
  have whole := spellings chars
  rw [cut, List.flatMap_append, List.flatMap_cons] at whole
  obtain ⟨char, spelled, read, _⟩ := all_eq_cons (all_drop cut)
  refine ⟨char, piece.spelling.tail ++ text behind, ?_, read⟩
  rw [← whole, spelled]
  rfl

/-- What is told about pieces that are not empty is told in the order of their places. -/
theorem pairwise_faults {position : Position} {pieces : List Piece}
    (filled : ∀ piece ∈ pieces, piece.spelling ≠ []) :
    (faults position pieces).flatten.Pairwise fun first second =>
      first.position.offset < second.position.offset := by
  induction pieces generalizing position with
  | nil => simp [faults]
  | cons piece pieces ih =>
    rw [List.forall_mem_cons] at filled
    rw [flatten_faults_cons]
    refine List.pairwise_append.mpr ⟨?_, ih filled.2, fun now own later behind => ?_⟩
    · unfold diagnostics
      cases piece.fault? with
      | none => exact .nil
      | some => exact List.pairwise_singleton _ _
    · obtain ⟨_, _, rfl⟩ := mem_diagnostics_iff.mp own
      obtain ⟨front, found, _, _, told⟩ := mem_flatten_faults_iff.mp behind
      obtain ⟨_, _, rfl⟩ := mem_diagnostics_iff.mp told
      have bytes := byteLength_pos filled.1
      simp only [Diagnostic.error, Position.offset_advanceAll]
      omega

end Piece

/-! ## What there is to tell -/

/-- A token begins with the opening character of an enclosed text, and behind that stands a text in
which it is not closed. -/
def Token.IsUnclosed (source : String) (enclosure : Enclosure) (later : List Char) (token : Token) :
    Prop :=
  ∃ before, source.toList = before ++ enclosure.opener :: later ∧
    byteLength before = token.span.start ∧ enclosure.NeverCloses later

/-- A diagnostic is about a character that lies in no token and is no white space. -/
def Diagnostic.IsStray (source : String) (tokens : List Token) (diagnostic : Diagnostic) : Prop :=
  ∃ before char after, source.toList = before ++ char :: after ∧
    Unicode.isWhiteSpace char = false ∧ (∀ token ∈ tokens, ¬token.span.Contains before char) ∧
    diagnostic = .error .lexical ("unexpected character " ++ CharLiteral.render char)
      (Position.start.advanceAll before)

/-- What is told about an enclosed text that is never closed. -/
def Enclosure.unclosedMessage : Enclosure → String
  | text => "unterminated string literal"
  | quotedName => "unterminated quoted identifier"
  | bracketName => "unterminated bracketed reference"

/-- These are the messages about pieces that are not closed. -/
theorem LexicalFault.message_unterminated (enclosure : Enclosure) :
    (unterminated enclosure).message = enclosure.unclosedMessage := by
  cases enclosure <;> rfl

/-- A diagnostic is about a token that is never closed. -/
def Diagnostic.IsUnclosed (source : String) (tokens : List Token) (diagnostic : Diagnostic) :
    Prop :=
  ∃ token ∈ tokens, ∃ enclosure later, token.IsUnclosed source enclosure later ∧
    diagnostic = .error .lexical enclosure.unclosedMessage token.position

/-- Diagnostics tell exactly what is wrong with a source that is cut into tokens. -/
structure ExactlyTold (source : String) (tokens : List Token) (diagnostics : List Diagnostic) :
    Prop where
  /-- Nothing is told twice. -/
  ordered : diagnostics.Pairwise fun first second => first.position.offset < second.position.offset
  told_iff : ∀ diagnostic, diagnostic ∈ diagnostics ↔
    diagnostic.IsStray source tokens ∨ diagnostic.IsUnclosed source tokens
  /-- What is never closed ends with its line, and says what stands there. -/
  line : ∀ token ∈ tokens, ∀ enclosure later, token.IsUnclosed source enclosure later →
    ∃ line rest, later = line ++ rest ∧ (∀ char ∈ line, char ≠ '\n' ∧ char ≠ '\r') ∧
      (∀ char ∈ rest.head?, char = '\n' ∨ char = '\r') ∧
      token.kind = enclosure.kind (String.ofList line) ∧
      token.span.stop = token.span.start + byteLength (enclosure.opener :: line)

section Source

variable {source : String}

/-- A token that is never closed is the token of a piece that is told to be so. -/
theorem Token.IsUnclosed.exists_piece {token : Token} (member : token ∈ tokenize source)
    {enclosure : Enclosure} {later : List Char} (open_ : token.IsUnclosed source enclosure later) :
    ∃ front behind,
      Piece.all source.toList =
        front ++ .token (enclosure.kind (String.ofList (Piece.splitLine later).1))
          (enclosure.opener :: (Piece.splitLine later).1) (some (.unterminated enclosure)) ::
            behind ∧
      token = Token.place (enclosure.kind (String.ofList (Piece.splitLine later).1))
        (Position.start.advanceAll (Piece.text front))
        (enclosure.opener :: (Piece.splitLine later).1) := by
  obtain ⟨before, split, starts, never⟩ := open_
  rw [tokenize_eq] at member
  rcases List.mem_append.mp member with own | isLast
  · obtain ⟨front, kind, spelling, fault, behind, cut, rfl, _, _⟩ := Piece.exists_of_mem_source own
    obtain ⟨char, chars, same, read⟩ := Piece.first_of_cut cut
    have bytes : byteLength before = byteLength (Piece.text front) := by
      simpa [Token.place, Position.start] using starts
    rw [split] at same
    obtain ⟨rfl, sameBehind⟩ := append_inj_of_byteLength same bytes
    obtain ⟨rfl, rfl⟩ := List.cons.inj sameBehind
    rw [Piece.first_of_neverCloses enclosure never] at read
    obtain ⟨rfl, rfl, rfl⟩ := Piece.token.inj (Prod.mk.inj read).1
    exact ⟨front, behind, cut, rfl⟩
  · -- The end of the input does not begin with anything.
    obtain rfl := List.mem_singleton.mp isLast
    have positive : 0 < enclosure.opener.utf8Size := Char.utf8Size_pos _
    rw [span_atEnd, split, byteLength_append, byteLength_cons] at starts
    dsimp only at starts
    omega

/-- What is told about a piece of a source is about a stray character or an unclosed token. -/
theorem told_of_cut {front behind : List Piece} {piece : Piece} {diagnostic : Diagnostic}
    (cut : Piece.all source.toList = front ++ piece :: behind)
    (told : diagnostic ∈ piece.diagnostics (Position.start.advanceAll (Piece.text front))) :
    diagnostic.IsStray source (tokenize source) ∨
      diagnostic.IsUnclosed source (tokenize source) := by
  obtain ⟨fault, wrong, rfl⟩ := Piece.mem_diagnostics_iff.mp told
  obtain ⟨char, later, split, read⟩ := Piece.first_of_cut cut
  have isFirst : (Piece.first char later).1 = piece := congrArg Prod.fst read
  rw [← isFirst] at wrong
  rcases Piece.fault?_cases wrong with ⟨isStray, rfl⟩ | ⟨enclosure, rfl, never, rfl⟩
  · have notWhite : Unicode.isWhiteSpace char = false := by
      refine Bool.eq_false_iff.mpr fun white => ?_
      rw [Piece.first_blank white] at isStray
      cases isStray
    rw [isStray] at isFirst
    subst isFirst
    refine .inl ⟨Piece.text front, char, later, split, notWhite, fun token member covers => ?_, rfl⟩
    have alone : (Piece.stray char).spelling = [] ++ char :: [] := rfl
    rw [← List.append_nil (Piece.text front)] at covers
    cases (contains_tokenize_iff cut alone token).mp ⟨member, covers⟩
  · rw [Piece.first_of_neverCloses enclosure never] at isFirst
    subst isFirst
    have begins : (Piece.token (enclosure.kind (String.ofList (Piece.splitLine later).1))
        (enclosure.opener :: (Piece.splitLine later).1)
        (some (.unterminated enclosure))).spelling =
          [] ++ enclosure.opener :: (Piece.splitLine later).1 := rfl
    have member : Token.place (enclosure.kind (String.ofList (Piece.splitLine later).1))
        (Position.start.advanceAll (Piece.text front))
        (enclosure.opener :: (Piece.splitLine later).1) ∈ tokenize source :=
      ((contains_tokenize_iff cut begins _).mpr rfl).1
    refine .inr ⟨_, member, enclosure, later, ⟨Piece.text front, split, ?_, never⟩, ?_⟩
    · simp [Token.place, Position.start]
    · rw [LexicalFault.message_unterminated]
      rfl

/-- A stray character is told. -/
theorem Diagnostic.IsStray.mem_lexicalDiagnostics {diagnostic : Diagnostic}
    (stray : diagnostic.IsStray source (tokenize source)) :
    diagnostic ∈ lexicalDiagnostics source := by
  obtain ⟨before, char, after, split, notWhite, uncovered, rfl⟩ := stray
  have whole : Piece.text (Piece.all source.toList) = source.toList := Piece.spellings _
  obtain ⟨front, piece, behind, inner, outer, cut, spelled, rfl⟩ :=
    Piece.exists_piece_of_char (whole.trans split)
  obtain ⟨_, _, _, read⟩ := Piece.first_of_cut cut
  cases piece with
  | token kind spelling fault =>
    have covered := (contains_tokenize_iff cut spelled _).mpr rfl
    exact absurd covered.2 (uncovered _ covered.1)
  | blank found =>
    obtain ⟨rfl, rfl, rfl⟩ : inner = [] ∧ found = char ∧ outer = [] := by
      simpa [Piece.spelling, List.append_eq_cons_iff, eq_comm] using spelled
    have white := Piece.isWhiteSpace_of_blank (congrArg Prod.fst read)
    simp [white] at notWhite
  | stray found =>
    obtain ⟨rfl, rfl, rfl⟩ : inner = [] ∧ found = char ∧ outer = [] := by
      simpa [Piece.spelling, List.append_eq_cons_iff, eq_comm] using spelled
    rw [List.append_nil]
    exact Piece.mem_lexicalDiagnostics cut (.head _)

/-- A token that is never closed is told. -/
theorem Diagnostic.IsUnclosed.mem_lexicalDiagnostics {diagnostic : Diagnostic}
    (unclosed : diagnostic.IsUnclosed source (tokenize source)) :
    diagnostic ∈ lexicalDiagnostics source := by
  obtain ⟨token, member, enclosure, later, open_, rfl⟩ := unclosed
  obtain ⟨front, behind, cut, rfl⟩ := open_.exists_piece member
  rw [← LexicalFault.message_unterminated]
  exact Piece.mem_lexicalDiagnostics cut (.head _)

theorem exactlyTold (source : String) :
    ExactlyTold source (tokenize source) (lexicalDiagnostics source) where
  ordered := by
    rw [lexicalDiagnostics_eq]
    exact Piece.pairwise_faults fun _ member => Piece.spelling_ne_nil_of_mem_all member
  told_iff diagnostic := by
    refine ⟨fun told => ?_, ?_⟩
    · rw [lexicalDiagnostics_eq] at told
      obtain ⟨front, piece, behind, cut, own⟩ := Piece.mem_flatten_faults_iff.mp told
      exact told_of_cut cut own
    · rintro (stray | unclosed)
      · exact stray.mem_lexicalDiagnostics
      · exact unclosed.mem_lexicalDiagnostics
  line token member enclosure later open_ := by
    obtain ⟨front, behind, _, rfl⟩ := open_.exists_piece member
    refine ⟨(Piece.splitLine later).1, (Piece.splitLine later).2,
      (Piece.splitLine_append later).symm, fun char inside => ?_, fun char isHead => ?_, rfl, rfl⟩
    · have belongs := belongs_of_mem_takeWhile (!Piece.isLineEnd ·) later char inside
      simpa [Piece.isLineEnd] using belongs
    · have stops := head?_dropWhile_any (!Piece.isLineEnd ·) later
      rw [Piece.splitLine] at isHead
      rw [Option.mem_def.mp isHead] at stops
      simpa [Piece.isLineEnd, Decidable.or_iff_not_imp_left] using stops

end Source

/-- **What is wrong with a text is told exactly**, in whatever order a reader is asked for tokens
and for what is wrong, as long as it comes to the end and nothing is left to tell. -/
theorem told_exactly (source : String) (requests : List TokenReader.Request)
    (ended : ∃ token ∈ ((TokenReader.ofSource source).run requests).tokens,
      token.kind = .endOfInput)
    (drained : ((TokenReader.ofSource source).run requests).reader.faults = []) :
    ((TokenReader.ofSource source).run requests).tokens = tokenize source ∧
      ExactlyTold source ((TokenReader.ofSource source).run requests).tokens
        ((TokenReader.ofSource source).run requests).faults := by
  obtain ⟨tokens, faults⟩ := TokenReader.run_ofSource ended drained
  rw [tokens, faults]
  exact ⟨rfl, exactlyTold source⟩

/-- A name that is not closed because its last two quotes are taken for one hides no text that is
not closed on the next line. -/
theorem told_exactly_doubled :
    let source := "@ 'a [b]\n\"x''"
    let requests : List TokenReader.Request :=
      [.next, .takeFaults, .takeFaults, .next, .next, .next, .takeFaults]
    let readout := (TokenReader.ofSource source).run requests
    (∃ token ∈ readout.tokens, token.kind = .endOfInput) ∧ readout.reader.faults = [] ∧
      readout.tokens.map (·.kind) = [.quotedName "a [b]", .text "x''", .endOfInput] ∧
      readout.faults = [.error .lexical "unexpected character '@'" ⟨0, 1, 1⟩,
        .error .lexical "unterminated quoted identifier" ⟨2, 1, 3⟩,
        .error .lexical "unterminated string literal" ⟨9, 2, 1⟩] ∧
      (readout.tokens = tokenize source ∧ ExactlyTold source readout.tokens readout.faults) := by
  intro source requests readout
  have ended : ∃ token ∈ readout.tokens, token.kind = .endOfInput := by decide +kernel
  have drained : readout.reader.faults = [] := by decide +kernel
  have kinds : readout.tokens.map (·.kind) = [.quotedName "a [b]", .text "x''", .endOfInput] := by
    decide +kernel
  have told : readout.faults = [.error .lexical "unexpected character '@'" ⟨0, 1, 1⟩,
      .error .lexical "unterminated quoted identifier" ⟨2, 1, 3⟩,
      .error .lexical "unterminated string literal" ⟨9, 2, 1⟩] := by
    decide +kernel
  exact ⟨ended, drained, kinds, told, told_exactly source requests ended drained⟩

end DaxScript
