import DaxScript.Grammar.Input

/-!
# Tokens and faults of placed pieces

The grammar reads the tokens of a source that are no comments, and with each of them, and with the
end, the diagnostics about the text since the token before.  Both are functions of the pieces of
the source and of the position from which they are placed: `Piece.tokens` and `Piece.faults`.

Placing pieces one part after the other gives the tokens of the parts one after the other, the
second part placed where the first one ends (`Piece.tokens_append`).  The diagnostics of a part
without faults are empty groups (`Piece.faults_append`).
-/

set_option autoImplicit false

namespace DaxScript

/-! ## Tokens in order -/

/-- Tokens that stand one behind the other. -/
structure InOrder (tokens : List Token) : Prop where
  forward : ∀ token ∈ tokens, token.span.start ≤ token.span.stop
  apart : tokens.Pairwise fun first second => first.span.stop ≤ second.span.start

namespace InOrder

variable {first second : List Token}

theorem left (ordered : InOrder (first ++ second)) : InOrder first where
  forward token member := ordered.forward token (List.mem_append_left _ member)
  apart := (List.pairwise_append.mp ordered.apart).1

theorem right (ordered : InOrder (first ++ second)) : InOrder second where
  forward token member := ordered.forward token (List.mem_append_right _ member)
  apart := (List.pairwise_append.mp ordered.apart).2.1

theorem tail {token : Token} {tokens : List Token} (ordered : InOrder (token :: tokens)) :
    InOrder tokens where
  forward later member := ordered.forward later (List.mem_cons_of_mem _ member)
  apart := (List.pairwise_cons.mp ordered.apart).2

/-- What stands in front ends before what stands behind begins. -/
theorem stop_le (ordered : InOrder (first ++ second)) {token later : Token}
    (inFront : token ∈ first) (behind : later ∈ second) : token.span.stop ≤ later.span.start :=
  (List.pairwise_append.mp ordered.apart).2.2 token inFront later behind

/-- No token ends behind the last one. -/
theorem stop_le_last {token : Token} {tokens : List Token} (ordered : InOrder (token :: tokens))
    {other : Token} (member : other ∈ token :: tokens) :
    other.span.stop ≤ (tokens.getLast?.getD token).span.stop := by
  rcases List.eq_nil_or_concat tokens with rfl | ⟨front, last, rfl⟩
  · rw [List.mem_singleton.mp member]
    exact Nat.le_refl _
  · rw [List.concat_eq_append] at ordered member ⊢
    rw [List.getLast?_concat, Option.getD_some]
    rw [← List.cons_append] at ordered member
    rcases List.mem_append.mp member with inFront | isLast
    · exact Nat.le_trans (ordered.stop_le inFront (.head _)) (ordered.right.forward last (.head _))
    · exact List.mem_singleton.mp isLast ▸ Nat.le_refl _

end InOrder

namespace Piece

/-- The token of a piece, unless it is a comment. -/
def ownTokens (piece : Piece) (position : Position) : List Token :=
  ((piece.token? position).filter fun token => !token.kind.isTrivia).toList

/-- The tokens of pieces from a position on, without comments. -/
def tokens (position : Position) : List Piece → List Token
  | [] => []
  | piece :: pieces =>
    piece.ownTokens position ++ tokens (position.advanceAll piece.spelling) pieces

/-- Puts diagnostics in front of those of the first group. -/
def addToFirst (diagnostics : List Diagnostic) : List (List Diagnostic) → List (List Diagnostic)
  | [] => []
  | group :: groups => (diagnostics ++ group) :: groups

theorem addToFirst_nil (groups : List (List Diagnostic)) : addToFirst [] groups = groups := by
  cases groups <;> rfl

/-- What is wrong with pieces from a position on: a group for each token that is no comment, and
one for the end. -/
def faults (position : Position) : List Piece → List (List Diagnostic)
  | [] => [[]]
  | piece :: pieces =>
    let later := faults (position.advanceAll piece.spelling) pieces
    if (piece.ownTokens position).isEmpty then addToFirst (piece.diagnostics position) later
    else piece.diagnostics position :: later

/-! ## What the grammar reads -/

theorem map_token_addFaults (diagnostics : List Diagnostic) (lexemes : List Lexeme) :
    (Lexeme.addFaults diagnostics lexemes).map (·.token) = lexemes.map (·.token) := by
  cases lexemes <;> rfl

theorem map_faults_addFaults (diagnostics : List Diagnostic) (lexemes : List Lexeme) :
    (Lexeme.addFaults diagnostics lexemes).map (·.faults) =
      addToFirst diagnostics (lexemes.map (·.faults)) := by
  cases lexemes <;> rfl

theorem significant_addFaults (diagnostics : List Diagnostic) (lexemes : List Lexeme) :
    Lexeme.significant (Lexeme.addFaults diagnostics lexemes) =
      Lexeme.addFaults diagnostics (Lexeme.significant lexemes) := by
  cases lexemes with
  | nil => rfl
  | cons lexeme lexemes =>
    simp only [Lexeme.addFaults, Lexeme.significant]
    split
    · cases Lexeme.significant lexemes <;> simp
    · rfl

/-- The end of the input is always a lexeme. -/
theorem ofPieces_ne_nil (position : Position) (pieces : List Piece) :
    Lexeme.ofPieces position pieces ≠ [] := by
  induction pieces generalizing position with
  | nil => exact List.cons_ne_nil _ _
  | cons piece pieces ih =>
    have some := ih (position.advanceAll piece.spelling)
    rw [Lexeme.ofPieces]
    cases piece.token? position with
    | some => exact List.cons_ne_nil _ _
    | none =>
      cases same : Lexeme.ofPieces (position.advanceAll piece.spelling) pieces with
      | nil => exact absurd same some
      | cons => exact List.cons_ne_nil _ _

/-- The groups of diagnostics that go with the tokens, from the lexemes. -/
theorem significant_ofPieces (position : Position) (pieces : List Piece) :
    (Lexeme.significant (Lexeme.ofPieces position pieces)).map (·.faults) =
      faults position pieces := by
  induction pieces generalizing position with
  | nil => rfl
  | cons piece pieces ih =>
    have later := ih (position.advanceAll piece.spelling)
    have skipped : (Lexeme.significant (Lexeme.addFaults (piece.diagnostics position)
          (Lexeme.ofPieces (position.advanceAll piece.spelling) pieces))).map (·.faults) =
        addToFirst (piece.diagnostics position)
          (faults (position.advanceAll piece.spelling) pieces) := by
      rw [significant_addFaults, map_faults_addFaults, later]
    cases piece with
    | blank => exact skipped
    | stray => exact skipped
    | token kind spelling fault =>
      rw [significant_addFaults, map_faults_addFaults] at skipped
      cases kind with
      | comment content =>
        have trivial := map_faults_addFaults
          ((token (.comment content) spelling fault).diagnostics position)
          (Lexeme.significant (Lexeme.ofPieces (position.advanceAll spelling) pieces))
        exact trivial.trans skipped
      | _ => exact congrArg _ later

/-- No piece of a text is the end of the input. -/
theorem kind_ne_endOfInput {char : Char} {chars : List Char} {kind : TokenKind}
    {spelling : List Char} {fault : Option LexicalFault}
    (read : (first char chars).1 = token kind spelling fault) : kind ≠ .endOfInput := by
  rintro rfl
  unfold first at read
  split at read
  · cases read
  split at read
  · cases read
  split at read
  · simp only [ofNumeral] at read
    split at read <;> cases read
  split at read
  · simp only [ofWord] at read
    split at read <;> cases read
  split at read
  · next enclosure _ =>
    simp only [firstEnclosed] at read
    split at read
    · cases enclosure <;> cases read
    · cases enclosure <;> cases read
  · simp only [firstSymbol] at read
    split at read
    · cases read
    · split at read <;> cases read

/-- The tokens that the grammar reads, from the pieces. -/
theorem filter_ofPieces (position : Position) (chars : List Char) :
    ((Lexeme.ofPieces position (all chars)).map (·.token)).filter (·.kind.isSignificant) =
      tokens position (all chars) := by
  fun_induction all chars generalizing position with
  | case1 => rfl
  | case2 char chars ih =>
    have later := ih (position.advanceAll (first char chars).1.spelling)
    have skipped (faults : List Diagnostic) :
        ((Lexeme.addFaults faults (Lexeme.ofPieces (position.advanceAll (first char chars).1.spelling)
            (all (first char chars).2))).map (·.token)).filter (·.kind.isSignificant) =
          tokens (position.advanceAll (first char chars).1.spelling) (all (first char chars).2) := by
      rw [map_token_addFaults, later]
    cases read : (first char chars).1 with
    | blank =>
      rw [read] at skipped
      exact skipped _
    | stray =>
      rw [read] at skipped
      exact skipped _
    | token kind spelling fault =>
      rw [read] at later
      have notEnd := kind_ne_endOfInput read
      cases kind with
      | endOfInput => exact absurd rfl notEnd
      | comment => exact later
      | _ => exact congrArg _ later

/-! ## One part after the other -/

/-- The characters of some pieces. -/
def text (pieces : List Piece) : List Char :=
  pieces.flatMap spelling

@[simp] theorem text_nil : text [] = [] := rfl

@[simp] theorem text_cons (piece : Piece) (pieces : List Piece) :
    text (piece :: pieces) = piece.spelling ++ text pieces :=
  List.flatMap_cons

@[simp] theorem text_append (first second : List Piece) :
    text (first ++ second) = text first ++ text second :=
  List.flatMap_append

/-- A piece has one token of its own or none. -/
theorem ownTokens_cases (piece : Piece) (position : Position) :
    piece.ownTokens position = [] ∨ ∃ token, piece.ownTokens position = [token] := by
  unfold ownTokens
  cases (piece.token? position).filter fun token => !token.kind.isTrivia with
  | none => exact .inl rfl
  | some token => exact .inr ⟨token, rfl⟩

theorem tokens_append (position : Position) (first second : List Piece) :
    tokens position (first ++ second) =
      tokens position first ++ tokens (position.advanceAll (text first)) second := by
  induction first generalizing position with
  | nil => rfl
  | cons piece first ih =>
    rw [List.cons_append, tokens, ih, tokens, List.append_assoc, text_cons,
      Position.advanceAll_append]

/-- The token of a piece covers its characters. -/
theorem eq_place_of_token? {piece : Piece} {position : Position} {token : Token}
    (placed : piece.token? position = some token) :
    token = Token.place token.kind position piece.spelling := by
  cases piece with
  | token => cases placed; rfl
  | _ => cases placed

theorem mem_ownTokens_iff {piece : Piece} {position : Position} {token : Token} :
    token ∈ piece.ownTokens position ↔
      piece.token? position = some token ∧ token.kind.isTrivia = false := by
  simp [ownTokens, Option.filter_eq_some_iff]

/-- A token lies within the pieces that it is a token of. -/
theorem within_of_mem_tokens {position : Position} {pieces : List Piece} {token : Token}
    (member : token ∈ tokens position pieces) :
    position.offset ≤ token.span.start ∧ token.span.start ≤ token.span.stop ∧
      token.span.stop ≤ position.offset + byteLength (text pieces) := by
  induction pieces generalizing position with
  | nil => cases member
  | cons piece pieces ih =>
    rw [text_cons, byteLength_append]
    rcases List.mem_append.mp member with own | later
    · rw [eq_place_of_token? (mem_ownTokens_iff.mp own).1]
      simp only [Token.place]
      omega
    · have bounds := ih later
      simp only [Position.offset_advanceAll] at bounds
      omega

/-- **The tokens of pieces stand one behind the other.** -/
theorem inOrder_tokens (position : Position) (pieces : List Piece) :
    InOrder (tokens position pieces) := by
  refine ⟨fun token member => (within_of_mem_tokens member).2.1, ?_⟩
  induction pieces generalizing position with
  | nil => exact .nil
  | cons piece pieces ih =>
    refine List.pairwise_append.mpr ⟨?_, ih _, fun token own later member => ?_⟩
    · rcases ownTokens_cases piece position with none | ⟨own, single⟩
      · rw [none]
        exact .nil
      · rw [single]
        exact List.pairwise_singleton _ _
    · have bounds := within_of_mem_tokens member
      rw [eq_place_of_token? (mem_ownTokens_iff.mp own).1]
      simpa [Token.place] using bounds.1

/-- A token among those of pieces is the token of one of the pieces. -/
theorem tokens_eq_append {position : Position} {pieces : List Piece} {before after : List Token}
    {token : Token} (cut : tokens position pieces = before ++ token :: after) :
    ∃ front piece behind, pieces = front ++ piece :: behind ∧ tokens position front = before ∧
      piece.ownTokens (position.advanceAll (text front)) = [token] ∧
      tokens (position.advanceAll (text (front ++ [piece]))) behind = after := by
  induction pieces generalizing position before with
  | nil => cases before <;> cases cut
  | cons piece pieces ih =>
    rw [tokens] at cut
    rcases ownTokens_cases piece position with none | ⟨own, single⟩
    · rw [none, List.nil_append] at cut
      obtain ⟨front, found, behind, rfl, same, isToken, rest⟩ := ih cut
      refine ⟨piece :: front, found, behind, rfl, ?_, ?_, ?_⟩
      · rw [tokens, none, same, List.nil_append]
      · rwa [text_cons, Position.advanceAll_append]
      · rwa [List.cons_append, text_cons, Position.advanceAll_append]
    · rw [single, List.singleton_append] at cut
      cases before with
      | nil =>
        obtain ⟨rfl, rest⟩ := List.cons.inj cut
        exact ⟨[], piece, pieces, rfl, rfl, single, by simpa using rest⟩
      | cons first before =>
        obtain ⟨rfl, others⟩ := List.cons.inj cut
        obtain ⟨front, found, behind, rfl, same, isToken, rest⟩ := ih others
        refine ⟨piece :: front, found, behind, rfl, ?_, ?_, ?_⟩
        · rw [tokens, single, same, List.singleton_append]
        · rwa [text_cons, Position.advanceAll_append]
        · rwa [List.cons_append, text_cons, Position.advanceAll_append]

/-! ## Faults -/

theorem faults_ne_nil (position : Position) (pieces : List Piece) :
    faults position pieces ≠ [] := by
  induction pieces generalizing position with
  | nil => exact List.cons_ne_nil _ _
  | cons piece pieces ih =>
    have later := ih (position.advanceAll piece.spelling)
    simp only [faults]
    split
    · cases same : faults (position.advanceAll piece.spelling) pieces with
      | nil => exact absurd same later
      | cons group groups => exact List.cons_ne_nil _ _
    · exact List.cons_ne_nil _ _

/-- All that is wrong with pieces is told, in their order. -/
theorem flatten_faults_cons (position : Position) (piece : Piece) (pieces : List Piece) :
    (faults position (piece :: pieces)).flatten =
      piece.diagnostics position ++ (faults (position.advanceAll piece.spelling) pieces).flatten := by
  have later := faults_ne_nil (position.advanceAll piece.spelling) pieces
  simp only [faults]
  split
  · cases same : faults (position.advanceAll piece.spelling) pieces with
    | nil => exact absurd same later
    | cons group groups => simp [addToFirst]
  · rfl

/-- What is told about pieces is told about one of them, where it stands. -/
theorem mem_flatten_faults_iff {position : Position} {pieces : List Piece}
    {diagnostic : Diagnostic} :
    diagnostic ∈ (faults position pieces).flatten ↔
      ∃ front piece behind, pieces = front ++ piece :: behind ∧
        diagnostic ∈ piece.diagnostics (position.advanceAll (text front)) := by
  induction pieces generalizing position with
  | nil => simp [faults]
  | cons piece pieces ih =>
    rw [flatten_faults_cons, List.mem_append, ih]
    constructor
    · rintro (own | ⟨front, found, behind, rfl, told⟩)
      · exact ⟨[], piece, pieces, rfl, own⟩
      · refine ⟨piece :: front, found, behind, rfl, ?_⟩
        rwa [text_cons, Position.advanceAll_append]
    · rintro ⟨front, found, behind, cut, told⟩
      cases front with
      | nil =>
        obtain ⟨rfl, _⟩ := List.cons.inj cut
        exact .inl told
      | cons first front =>
        obtain ⟨rfl, rfl⟩ := List.cons.inj cut
        rw [text_cons, Position.advanceAll_append] at told
        exact .inr ⟨front, found, behind, rfl, told⟩

/-- What is told about a piece is told about its start, and there is a fault. -/
theorem mem_diagnostics_iff {piece : Piece} {position : Position} {diagnostic : Diagnostic} :
    diagnostic ∈ piece.diagnostics position ↔
      ∃ fault, piece.fault? = some fault ∧
        diagnostic = .error .lexical fault.message position := by
  rw [diagnostics, Option.mem_toList, Option.map_eq_some_iff]
  simp only [eq_comm]

theorem diagnostics_eq_nil_iff {piece : Piece} {position : Position} :
    piece.diagnostics position = [] ↔ piece.fault? = none := by
  simp [diagnostics]

/-- Nothing is told exactly when nothing is wrong. -/
theorem flatten_faults_eq_nil_iff {position : Position} {pieces : List Piece} :
    (faults position pieces).flatten = [] ↔ ∀ piece ∈ pieces, piece.fault? = none := by
  induction pieces generalizing position with
  | nil => simp [faults]
  | cons piece pieces ih =>
    rw [flatten_faults_cons, List.append_eq_nil_iff, diagnostics_eq_nil_iff, ih,
      List.forall_mem_cons]

/-- **Nothing is told about the tokens of a part without faults.** -/
theorem faults_append {position : Position} {first second : List Piece}
    (sound : ∀ piece ∈ first, piece.fault? = none) :
    faults position (first ++ second) = List.replicate (tokens position first).length [] ++
      faults (position.advanceAll (text first)) second := by
  induction first generalizing position with
  | nil => rfl
  | cons piece first ih =>
    rw [List.forall_mem_cons] at sound
    have later := @ih (position.advanceAll piece.spelling) sound.2
    rw [List.cons_append, faults, tokens, text_cons, Position.advanceAll_append, later,
      diagnostics_eq_nil_iff.mpr sound.1]
    rcases ownTokens_cases piece position with none | ⟨token, single⟩
    · rw [none, if_pos List.isEmpty_nil, List.nil_append]
      cases List.replicate _ _ ++ faults _ second <;> rfl
    · rw [single, if_neg (by simp)]
      rfl

/-- Whatever is told about pieces is an error. -/
theorem isError_of_mem_faults {position : Position} {pieces : List Piece} {diagnostic : Diagnostic}
    (member : diagnostic ∈ (faults position pieces).flatten) : diagnostic.isError = true := by
  induction pieces generalizing position with
  | nil => simp [faults] at member
  | cons piece pieces ih =>
    rw [flatten_faults_cons] at member
    rcases List.mem_append.mp member with own | later
    · simp only [diagnostics, Option.mem_toList, Option.map_eq_some_iff] at own
      obtain ⟨fault, _, rfl⟩ := own
      rfl
    · exact ih later

/-- All that is wrong with pieces is told with some lexeme. -/
theorem flatMap_faults_ofPieces (position : Position) (pieces : List Piece) :
    (Lexeme.ofPieces position pieces).flatMap (·.faults) = (faults position pieces).flatten := by
  induction pieces generalizing position with
  | nil => rfl
  | cons piece pieces ih =>
    have later := ih (position.advanceAll piece.spelling)
    have skipped : (Lexeme.addFaults (piece.diagnostics position)
        (Lexeme.ofPieces (position.advanceAll piece.spelling) pieces)).flatMap (·.faults) =
          piece.diagnostics position ++
            (Lexeme.ofPieces (position.advanceAll piece.spelling) pieces).flatMap (·.faults) := by
      cases same : Lexeme.ofPieces (position.advanceAll piece.spelling) pieces with
      | nil => exact absurd same (ofPieces_ne_nil _ _)
      | cons lexeme lexemes => simp [Lexeme.addFaults]
    rw [flatten_faults_cons, ← later]
    cases piece with
    | blank => exact skipped
    | stray => exact skipped
    | token => exact List.flatMap_cons

end Piece

namespace Input

theorem tokens_ofSource (source : String) :
    (ofSource source).tokens = Piece.tokens .start (Piece.all source.toList) :=
  Piece.filter_ofPieces .start source.toList

theorem inOrder_tokens (source : String) : InOrder (ofSource source).tokens := by
  rw [tokens_ofSource]
  exact Piece.inOrder_tokens .start _

theorem faults_ofSource (source : String) :
    (ofSource source).faults = Piece.faults .start (Piece.all source.toList) :=
  Piece.significant_ofPieces .start (Piece.all source.toList)

end Input

/-! ## All that is wrong with the text of a source -/

/-- What is wrong with the text of a source, in order. -/
def lexicalDiagnostics (source : String) : List Diagnostic :=
  (Lexeme.ofSource source).flatMap (·.faults)

theorem lexicalDiagnostics_eq (source : String) :
    lexicalDiagnostics source = (Piece.faults .start (Piece.all source.toList)).flatten :=
  Piece.flatMap_faults_ofPieces .start (Piece.all source.toList)

/-- Nothing is told about a text exactly when nothing is wrong with any of its pieces. -/
theorem lexicalDiagnostics_eq_nil_iff {source : String} :
    lexicalDiagnostics source = [] ↔ ∀ piece ∈ Piece.all source.toList, piece.fault? = none := by
  rw [lexicalDiagnostics_eq, Piece.flatten_faults_eq_nil_iff]

end DaxScript
