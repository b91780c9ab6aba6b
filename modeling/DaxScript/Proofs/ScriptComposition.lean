import DaxScript.Proofs.Script.Joining
import DaxScript.Proofs.Script.Relocation
import DaxScript.Proofs.Token.Lookahead

/-!
# Scripts are put together statement by statement

When nothing is wrong with a script and its parentheses and braces are balanced, another script
can be put behind it, with a semicolon between them or, if the other script begins with a keyword
that begins a statement, on the next line.  The measures of the first script come first, and the
other script is read as if it stood alone, further down (`readScript_append`).

The text is cut into the pieces of the two scripts, the first script is read in the same turns as
before, and the second one in the same turns as in its old place.
-/

set_option autoImplicit false

namespace DaxScript

/-! ## Keywords that begin a script -/

namespace Piece

/-- Whether the first piece that is neither white space nor a comment is a keyword that begins a
statement. -/
def opensStatement : List Piece → Bool
  | .blank _ :: pieces => opensStatement pieces
  | .token (.comment _) _ _ :: pieces => opensStatement pieces
  | .token (.keyword word) _ _ :: _ => word == .create || word == .define || word == .evaluate
  | _ => false

/-- Nothing but a numeral or an enclosed text can be a faulty token. -/
theorem kind_of_faulty {char : Char} {chars : List Char} {kind : TokenKind} {spelling : List Char}
    {fault : LexicalFault} (read : (first char chars).1 = token kind spelling (some fault)) :
    (∃ value, kind = .number value) ∨
      ∃ (enclosure : Enclosure) (content : String), kind = enclosure.kind content := by
  unfold first at read
  split at read
  · cases read
  split at read
  · cases read
  split at read
  · simp only [ofNumeral] at read
    split at read <;> cases read
    exact .inl ⟨_, rfl⟩
  split at read
  · simp only [ofWord] at read
    split at read <;> cases read
  split at read
  · simp only [firstEnclosed] at read
    split at read <;> cases read
    exact .inr ⟨_, _, rfl⟩
  · simp only [firstSymbol] at read
    split at read
    · cases read
    · split at read <;> cases read

/-- The keyword that begins a script is its first token, and nothing is wrong up to it. -/
theorem head_of_opensStatement {chars : List Char} (opens : opensStatement (all chars) = true)
    (position : Position) :
    ∃ (token : Token) (word : Keyword) (rest : List Token) (groups : List (List Diagnostic)),
      tokens position (all chars) = token :: rest ∧ token.kind = .keyword word ∧
        word.startsStatement = true ∧ faults position (all chars) = [] :: groups := by
  fun_induction all chars generalizing position with
  | case1 => cases opens
  | case2 char chars ih =>
    cases read : (first char chars).1 with
    | blank white =>
      rw [read] at opens
      obtain ⟨token, word, rest, groups, isFirst, kind, starts, silent⟩ :=
        ih opens (position.advanceAll [white])
      refine ⟨token, word, rest, groups, isFirst, kind, starts, ?_⟩
      exact congrArg (addToFirst []) silent
    | stray =>
      rw [read] at opens
      cases opens
    | token kind spelling fault =>
      rw [read] at opens
      cases fault with
      | some fault =>
        obtain ⟨value, rfl⟩ | ⟨enclosure, content, rfl⟩ := kind_of_faulty read
        · cases opens
        · cases enclosure <;> cases opens
      | none =>
        cases kind with
        | comment content =>
          obtain ⟨token, word, rest, groups, isFirst, kind, starts, silent⟩ :=
            ih opens (position.advanceAll spelling)
          refine ⟨token, word, rest, groups, isFirst, kind, starts, ?_⟩
          exact congrArg (addToFirst []) silent
        | keyword word =>
          have starts : word.startsStatement = true := by cases word <;> first | rfl | cases opens
          exact ⟨_, word, _, _, rfl, rfl, starts, rfl⟩
        | _ => cases opens

end Piece

/-! ## The second script -/

namespace Input

/-- What the grammar reads of a source without faults and of another source on the next lines. -/
theorem ofSource_append {front : String}
    (sound : ∀ piece ∈ Piece.all front.toList, piece.fault? = none) (second : String) :
    let place := Relocation.behindLines (front ++ "\n").toList
    (ofSource (front ++ "\n" ++ second)).tokens =
        (ofSource front).tokens ++ (ofSource second).tokens.map place.token ∧
      (ofSource (front ++ "\n" ++ second)).faults =
        List.replicate (ofSource front).tokens.length [] ++
          (ofSource second).faults.map (List.map place.diagnostic) ∧
      (ofSource (front ++ "\n" ++ second)).finish = place.position (ofSource second).finish := by
  have whole : (front ++ "\n" ++ second).toList = front.toList ++ '\n' :: second.toList := by
    simp
  have lines : (front ++ "\n").toList = front.toList ++ ['\n'] := by simp
  have start := Relocation.behindLines_start front.toList
  have follows := Relocation.behindLines_follows (front.toList ++ ['\n']) .start
  have cut : Piece.all (front.toList ++ '\n' :: second.toList) =
      Piece.all front.toList ++ .blank '\n' :: Piece.all second.toList := by
    rw [Piece.all_append sound (by simp), Piece.all, Piece.first_blank rfl]
  have text : Piece.text (Piece.all front.toList) = front.toList := Piece.spellings _
  have behind : (Position.start.advanceAll front.toList).advanceAll ['\n'] =
      (Relocation.behindLines (front.toList ++ ['\n'])).position .start := by
    rw [start, Position.advanceAll_append]
  simp only [lines]
  refine ⟨?_, ?_, ?_⟩
  · rw [tokens_ofSource, tokens_ofSource, tokens_ofSource, whole, cut, Piece.tokens_append, text,
      follows.tokens, ← behind]
    rfl
  · rw [faults_ofSource, faults_ofSource, tokens_ofSource, whole, cut, Piece.faults_append sound,
      text, follows.faults, ← behind]
    exact congrArg _ (Piece.addToFirst_nil _)
  · rw [ofSource, ofSource, whole, follows, ← behind, List.append_cons, Position.advanceAll_append,
      Position.advanceAll_append]

end Input

theorem Relocation.keepsTexts_behindLines (front second : String) :
    (behindLines front.toList).KeepsTexts second.toList (front ++ second).toList := by
  intro span
  rw [String.toList_append]
  exact Span.slice_behind span front.toList second.toList

/-- A semicolon on a line of its own is one more token. -/
theorem Input.ofSource_semicolon {first : String}
    (sound : ∀ piece ∈ Piece.all first.toList, piece.fault? = none) :
    (∀ piece ∈ Piece.all (first ++ "\n;").toList, piece.fault? = none) ∧
      ∃ sign : Token, sign.kind = .symbol .semicolon ∧
        (ofSource (first ++ "\n;")).tokens = (ofSource first).tokens ++ [sign] := by
  have spelled : (first ++ "\n;").toList = first.toList ++ ['\n', ';'] := String.toList_append
  have sign : Piece.all ['\n', ';'] =
      [.blank '\n', .token (.symbol .semicolon) [';'] none] := by cbv
  have cut : Piece.all (first ++ "\n;").toList =
      Piece.all first.toList ++ [.blank '\n', .token (.symbol .semicolon) [';'] none] := by
    rw [spelled, Piece.all_append sound (by simp), sign]
  constructor
  · rw [cut, List.forall_mem_append]
    exact ⟨sound, by simp [Piece.fault?]⟩
  · refine ⟨Token.place (.symbol .semicolon)
      ((Position.start.advanceAll first.toList).advance '\n') [';'], rfl, ?_⟩
    have text : Piece.text (Piece.all first.toList) = first.toList := Piece.spellings _
    rw [tokens_ofSource, tokens_ofSource, cut, Piece.tokens_append, text]
    rfl

/-! ## Both scripts -/

/-- What is recorded of a script that consists of another script, something between and a third
one, given the text that stands in front of the third.  Its measures are those of both scripts, and
whatever comes from the third is further down: by the bytes and the lines of the text in front,
but in the same columns. -/
structure Composes (text : String) (first second whole : Recording) : Prop where
  measures : whole.measures =
    first.measures ++ second.measures.map (Relocation.behindLines text.toList).measure
  diagnostics : whole.collector.items =
    second.collector.items.map (Relocation.behindLines text.toList).diagnostic
  overflowed : whole.collector.overflowed = second.collector.overflowed
  complete : whole.isComplete = second.isComplete

theorem Composes.of_continues {text : String} {first second whole : Recording}
    (continues : Relocation.Continues (Relocation.behindLines text.toList)
      (Relocation.behindLines text.toList).measure first.measures second whole) :
    Composes text first second whole := by
  obtain ⟨measures, collector⟩ := continues
  have sameRoom : whole.collector.overflowed = second.collector.overflowed := by
    rw [collector]
    rfl
  exact ⟨measures, congrArg Collector.items collector, sameRoom, congrArg not sameRoom⟩

/-- A script in which nothing is wrong and a separator are followed by a second script. -/
theorem Separates.composes {first front second : String} {before options : ScriptOptions}
    {signs : List Token} {groups : List (List Diagnostic)}
    (separates : Separates signs
      ((Input.ofSource second).tokens.map (Relocation.behindLines (front ++ "\n").toList).token)
      groups ((Input.ofSource second).faults.map
        (List.map (Relocation.behindLines (front ++ "\n").toList).diagnostic)))
    (right : (readScript first before).collector.items = [])
    (balanced : isBalanced 0 ((Input.ofSource first).tokens.map (·.kind)) = true)
    {more : List Char} (spelled : front.toList = first.toList ++ more)
    (sound : ∀ piece ∈ Piece.all front.toList, piece.fault? = none)
    (signed : (Input.ofSource front).tokens = (Input.ofSource first).tokens ++ signs) :
    Composes (front ++ "\n") (readScript first before) (readScript second options)
      (readScript (front ++ "\n" ++ second) options) := by
  have whole : (front ++ "\n" ++ second).toList =
      first.toList ++ (more ++ '\n' :: second.toList) := by
    simp [spelled]
  have inside : (Input.ofSource first).finish.offset ≤ byteLength first.toList := by
    simp [Input.ofSource, Position.offset_advanceAll, Position.start]
  have noErrors : (Recording.withLimit options.maxErrors).collector.hasErrors = false := rfl
  obtain ⟨tokens, faults, finish⟩ := Input.ofSource_append sound second
  obtain ⟨grouped, terminates, resumes⟩ := separates
  have texts := Relocation.keepsTexts_behindLines (front ++ "\n") second
  generalize placed : Relocation.behindLines (front ++ "\n").toList = place at *
  have counted : groups.length =
      (signs ++ (Input.ofSource second).tokens.map place.token).length := by
    have lengths := congrArg List.length grouped
    simp only [List.length_append, List.length_replicate, List.length_map, List.length_cons,
      Input.length_faults] at lengths ⊢
    omega
  -- First the first script is read, and then the separator.
  obtain ⟨joined, sameCollector, sameMeasures, read⟩ := Recording.exists_readOn_append
    (Between.ofSource first before.maxErrors) right inside balanced terminates counted
    (fun noErrors => resumes (first.toList ++ (more ++ '\n' :: second.toList))
      (Input.ofSource (front ++ "\n" ++ second)).finish noErrors)
    noErrors rfl ((Input.ofSource first).tokens.length + 1)
  -- From there on the second script is read in its new place.
  have start : Relocation.Continues place place.measure joined.measures
      (.withLimit options.maxErrors) joined :=
    ⟨(List.append_nil _).symm, sameCollector⟩
  have continues := start.readOn (Relocation.ofClause_clause texts) (Input.ofSource second).finish
    (Input.ofSource second).faults (Input.ofSource second).tokens
  have front_faults : (Input.ofSource (front ++ "\n" ++ second)).faults =
      List.replicate ((Input.ofSource first).tokens.length + 1) [] ++ groups := by
    rw [faults, signed, List.length_append, ← List.replicate_append_replicate, List.append_assoc,
      grouped, List.replicate_succ', List.append_assoc]
    rfl
  rw [← whole, ← List.append_assoc, ← signed, ← tokens, ← front_faults, ← readScript_eq_readOn,
    finish] at read
  rw [← readScript_eq_readOn] at sameMeasures continues
  rw [← read, sameMeasures] at continues
  subst placed
  exact .of_continues continues

/-- A script in which nothing is wrong has no faults in its text. -/
theorem fault?_eq_none_of_right {source : String} {options : ScriptOptions}
    (right : (readScript source options).collector.items = []) :
    ∀ piece ∈ Piece.all source.toList, piece.fault? = none := by
  have silent := (Between.ofSource source options.maxErrors).flatten_faults_eq_nil right
  rw [Input.faults_ofSource] at silent
  exact Piece.flatten_faults_eq_nil_iff.mp silent

/-- A script in which nothing is wrong is followed by a second script behind a semicolon. -/
theorem Composes.semicolon {first : String} {before : ScriptOptions}
    (right : (readScript first before).collector.items = [])
    (balanced : isBalanced 0 ((Input.ofSource first).tokens.map (·.kind)) = true)
    (second : String) (options : ScriptOptions) :
    Composes (first ++ "\n;\n") (readScript first before) (readScript second options)
      (readScript (first ++ "\n;\n" ++ second) options) := by
  have lines : first ++ "\n;\n" = first ++ "\n;" ++ "\n" := by
    rw [String.append_assoc]
    rfl
  obtain ⟨stillSound, sign, isSign, signed⟩ :=
    Input.ofSource_semicolon (fault?_eq_none_of_right right)
  rw [lines]
  refine (Separates.semicolon isSign ?_).composes right balanced String.toList_append stillSound
    signed
  rw [List.length_map, List.length_map, Input.length_faults]

/-- **Scripts compose statement by statement.**  A second script is read behind a first one in
which nothing is wrong and all parentheses and braces are closed, as if it stood alone.  What
separates them is a semicolon, or the keyword that begins a statement with which the second script
begins. -/
theorem readScript_append (first : String) (before : ScriptOptions)
    (right : (readScript first before).collector.items = [])
    (balanced : isBalanced 0 ((Input.ofSource first).tokens.map (·.kind)) = true)
    (second : String) (options : ScriptOptions) :
    Composes (first ++ "\n;\n") (readScript first before) (readScript second options)
        (readScript (first ++ "\n;\n" ++ second) options) ∧
      (Piece.opensStatement (Piece.all second.toList) = true →
        Composes (first ++ "\n") (readScript first before) (readScript second options)
          (readScript (first ++ "\n" ++ second) options)) := by
  constructor
  · exact .semicolon right balanced second options
  · intro opens
    have sound := fault?_eq_none_of_right right
    have follows := Relocation.behindLines_follows (first ++ "\n").toList .start
    obtain ⟨token, word, rest, groups, tokens, isWord, starts, faults⟩ :=
      Piece.head_of_opensStatement opens
        ((Relocation.behindLines (first ++ "\n").toList).position .start)
    rw [← follows.tokens, ← Input.tokens_ofSource] at tokens
    rw [← follows.faults, ← Input.faults_ofSource] at faults
    have counted : groups.length = rest.length + 1 := by
      have lengths := congrArg List.length faults
      have size := congrArg List.length tokens
      rw [List.length_map, Input.length_faults, List.length_cons] at lengths
      rw [List.length_map, List.length_cons] at size
      omega
    have separates := Separates.keyword isWord starts counted
    rw [← tokens, ← faults] at separates
    exact separates.composes right balanced (List.append_nil _).symm sound (List.append_nil _).symm

/-- A query behind a measure, with a fault in its last line. -/
theorem readScript_append_query :
    let first := "CREATE MEASURE t[a] = (b)"
    let second := "-- all\nEVALUATE t ]"
    (readScript first {}).collector.items = [] ∧
      isBalanced 0 ((Input.ofSource first).tokens.map (·.kind)) = true ∧
      Piece.opensStatement (Piece.all second.toList) = true ∧
      Composes (first ++ "\n;\n") (readScript first {}) (readScript second {})
        (readScript (first ++ "\n;\n" ++ second) {}) ∧
      Composes (first ++ "\n") (readScript first {}) (readScript second {})
        (readScript (first ++ "\n" ++ second) {}) := by
  have right : (readScript "CREATE MEASURE t[a] = (b)" {}).collector.items = [] := by cbv
  have balanced : isBalanced 0 ((Input.ofSource "CREATE MEASURE t[a] = (b)").tokens.map
      (·.kind)) = true := by cbv
  have opens : Piece.opensStatement (Piece.all "-- all\nEVALUATE t ]".toList) = true := by cbv
  have composes := readScript_append "CREATE MEASURE t[a] = (b)" {} right balanced
    "-- all\nEVALUATE t ]" {}
  exact ⟨right, balanced, opens, composes.1, composes.2 opens⟩

end DaxScript
