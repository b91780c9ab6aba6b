import DaxScript.Proofs.ErrorLimit
import DaxScript.Proofs.LosslessTokens
import DaxScript.Proofs.Text.Position

/-!
# Every position is true

A position is told of every token and with everything that is wrong, and it can be checked against
the source: counting the bytes, the line feeds and the characters in front of the place gives the
same position (`positions_true`).

Pieces are placed by reading on from the start of the source, so they stand at positions that are
reached (`Position.IsReached`), and what is told about a piece, a token or the end of the input is
told about such a position.  A script tells of nothing else (`Turn.told_of_all`).
-/

set_option autoImplicit false

namespace DaxScript

/-! ## Pieces -/

namespace Piece

/-- What is wrong with pieces is told about the start of one of them. -/
theorem exists_of_mem_faults {position : Position} {pieces : List Piece} {diagnostic : Diagnostic}
    (member : diagnostic ∈ (faults position pieces).flatten) :
    ∃ front behind, pieces = front ++ behind ∧
      diagnostic.position = position.advanceAll (text front) := by
  obtain ⟨front, piece, behind, rfl, own⟩ := mem_flatten_faults_iff.mp member
  obtain ⟨_, _, rfl⟩ := mem_diagnostics_iff.mp own
  exact ⟨front, piece :: behind, rfl, rfl⟩

/-- Some of the first pieces of a source lead to a position of the source. -/
theorem isReached_of_all {source : List Char} {front behind : List Piece}
    (cut : all source = front ++ behind) :
    (Position.start.advanceAll (text front)).IsReached source := by
  have split : source = text front ++ text behind := by
    rw [← text_append, ← cut]
    exact (spellings source).symm
  rw [split]
  exact .of_append _ _

end Piece

/-! ## What a source tells about -/

section Source

variable {source : String}

/-- A token stands at a position of the source. -/
theorem isReached_of_mem_tokenize {token : Token} (member : token ∈ tokenize source) :
    token.position.IsReached source.toList ∧ token.span.start = token.position.offset := by
  rw [tokenize_eq] at member
  rcases List.mem_append.mp member with own | isLast
  · obtain ⟨front, piece, behind, cut, placed⟩ := Piece.exists_of_mem_allTokens own
    rw [Piece.eq_place_of_token? placed]
    exact ⟨Piece.isReached_of_all cut, rfl⟩
  · obtain rfl := List.mem_singleton.mp isLast
    exact ⟨.finish _, rfl⟩

theorem isReached_of_mem_lexicalDiagnostics {diagnostic : Diagnostic}
    (member : diagnostic ∈ lexicalDiagnostics source) :
    diagnostic.position.IsReached source.toList := by
  rw [lexicalDiagnostics_eq] at member
  obtain ⟨front, behind, cut, same⟩ := Piece.exists_of_mem_faults member
  rw [same]
  exact Piece.isReached_of_all cut

end Source

/-- **Nothing is told in any turn but about the text, the tokens and the end of the input.** -/
theorem Turn.told_of_all {source : List Char} {finish : Position} {about : Position → Prop}
    (atEnd : about finish) {faults : List (List Diagnostic)} {tokens : List Token}
    (inText : ∀ diagnostic ∈ faults.flatten, about diagnostic.position)
    (atTokens : ∀ token ∈ tokens, about token.position) :
    ∀ diagnostic ∈ (allEvents faults (all source finish tokens)).flatten.flatMap Event.diagnostics,
      about diagnostic.position := by
  induction tokens using Turn.byTurns source finish generalizing faults with
  | nil =>
    intro diagnostic told
    rw [all] at told
    simp only [allEvents, events, List.flatten_cons, List.flatten_nil, List.append_nil,
      Event.diagnostics_diagnosed] at told
    exact inText diagnostic ((List.take_sublist _ _).flatten.subset told)
  | turn first rest ih =>
    intro diagnostic told
    have course := course source finish first rest
    rw [all, allEvents, List.flatten_cons, List.flatMap_append, List.mem_append] at told
    rcases told with now | later
    · rcases course.told_cases now with due | ⟨_, same | ⟨token, isToken, same⟩⟩
      · exact inText diagnostic due
      · exact same ▸ atEnd
      · exact same ▸ atTokens token isToken
    · refine ih (fun diagnostic member => ?_) (fun token member => ?_) diagnostic later
      · exact inText diagnostic (mem_flatten_of_suffix (events_suffix _ _) member)
      · exact atTokens token (course.rest_suffix.subset member)

/-- What is told about a script is told about a position of the source. -/
theorem isReached_of_mem_toldDiagnostics {source : String} {diagnostic : Diagnostic}
    (told : diagnostic ∈ toldDiagnostics source) :
    diagnostic.position.IsReached source.toList := by
  refine Turn.told_of_all (.finish source.toList) (fun diagnostic member => ?_)
    (fun token member => ?_) diagnostic told
  · rw [Input.faults_ofSource, ← lexicalDiagnostics_eq] at member
    exact isReached_of_mem_lexicalDiagnostics member
  · exact (isReached_of_mem_tokenize (List.mem_of_mem_filter member)).1

/-! ## Positions that are true -/

/-- A position that tells the truth about a place in a source. -/
structure TruePosition (source : String) (position : Position) : Prop where
  inside : position.offset ≤ byteLength source.toList
  /-- The offset cuts no character in two, and line and column are those counted there. -/
  counted : Position.ofOffset? source.toList position.offset = some position
  /-- Counters of 32 bits are enough. -/
  line_lt : position.line < UInt32.size
  column_lt : position.column < UInt32.size

theorem TruePosition.of_isReached {source : String} {position : Position}
    (short : source.toList.length < UInt32.size - 1)
    (reached : position.IsReached source.toList) : TruePosition source position where
  inside := reached.offset_le
  counted := reached.ofOffset?
  line_lt := by
    have bound := reached.line_column_le.1
    omega
  column_lt := by
    have bound := reached.line_column_le.2
    omega

/-- **Every position is true**: those of all tokens, of all that is wrong with the text and of all
that is told about the script, whatever is kept of it. -/
theorem positions_true (source : String) (short : source.toList.length < UInt32.size - 1)
    (options : ScriptOptions) :
    (∀ token ∈ tokenize source,
        TruePosition source token.position ∧ token.span.start = token.position.offset) ∧
      (∀ diagnostic ∈ lexicalDiagnostics source, TruePosition source diagnostic.position) ∧
      ∀ diagnostic ∈ (readScript source options).collector.items,
        TruePosition source diagnostic.position := by
  refine ⟨fun token member => ?_, fun diagnostic member => ?_, fun diagnostic member => ?_⟩
  · have reached := isReached_of_mem_tokenize member
    exact ⟨.of_isReached short reached.1, reached.2⟩
  · exact .of_isReached short (isReached_of_mem_lexicalDiagnostics member)
  · rw [collector_readScript] at member
    exact .of_isReached short (isReached_of_mem_toldDiagnostics (List.mem_of_mem_take member))

/-- In a text of three lines a name is never closed and a character is unexpected. -/
theorem positions_true_open :
    let source := "= 'é\r\n@ ß\n)"
    source.toList.length < UInt32.size - 1 ∧
      (tokenize source).map (·.position) =
        [⟨0, 1, 1⟩, ⟨2, 1, 3⟩, ⟨9, 2, 3⟩, ⟨12, 3, 1⟩, ⟨13, 3, 2⟩] ∧
      (readScript source {}).collector.items.map (·.position) =
        [⟨2, 1, 3⟩, ⟨7, 2, 1⟩, ⟨9, 2, 3⟩] ∧
      ((∀ token ∈ tokenize source,
          TruePosition source token.position ∧ token.span.start = token.position.offset) ∧
        (∀ diagnostic ∈ lexicalDiagnostics source, TruePosition source diagnostic.position) ∧
        ∀ diagnostic ∈ (readScript source {}).collector.items,
          TruePosition source diagnostic.position) := by
  have short : "= 'é\r\n@ ß\n)".toList.length < UInt32.size - 1 := by decide
  have placed : (tokenize "= 'é\r\n@ ß\n)").map (·.position) =
      [⟨0, 1, 1⟩, ⟨2, 1, 3⟩, ⟨9, 2, 3⟩, ⟨12, 3, 1⟩, ⟨13, 3, 2⟩] := by decide +kernel
  have told : (readScript "= 'é\r\n@ ß\n)" {}).collector.items.map (·.position) =
      [⟨2, 1, 3⟩, ⟨7, 2, 1⟩, ⟨9, 2, 3⟩] := by decide +kernel
  exact ⟨short, placed, told, positions_true _ short {}⟩

end DaxScript
