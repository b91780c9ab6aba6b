import DaxScript.Proofs.Script.SingleStatement
import DaxScript.Proofs.ScriptComposition
import DaxScript.Proofs.WellFormedMeasures

/-!
# Statements that are passed over

A statement that is not supported is passed over without a word.  Put between two scripts it moves
what stands behind it and changes nothing else (`readScript_insert`): it is a script of its own with
no measures, about which nothing is told, and scripts compose.

Semicolons inside of its parentheses and braces do not end it, with one exception.  The first token
has been read before anything is counted.  If it is an opening sign, then what is inside of it
counts as outside, and the rest of a statement that is no statement may be read as one
(`readScript_insert_opening`).
-/

set_option autoImplicit false

namespace DaxScript

/-! ## Statements that are none -/

namespace TokenKind

/-- Whether a token opens parentheses or braces. -/
def opens : TokenKind → Bool
  | symbol .leftParen | symbol .leftBrace => true
  | _ => false

/-- Whether a token begins a statement that is not supported, given the kind of the token after
it. -/
def isForeign (first next : TokenKind) : Bool :=
  match first with
  | symbol .semicolon | symbol .equal | keyword .define | keyword .evaluate => false
  | keyword .create =>
    match next with
    | keyword .measure => false
    | identifier word => !sameIgnoringCase word "KPI"
    | _ => true
  | _ => true

end TokenKind

/-- Whether parentheses and braces, counted together, are all closed in the end and never close more
than is open, and semicolons and keywords that begin statements stand inside of them only, given how
many are open at first. -/
def isEnclosed (depth : Nat) : List TokenKind → Bool
  | [] => depth == 0
  | kind :: kinds =>
    match kind with
    | .symbol .leftParen | .symbol .leftBrace => isEnclosed (depth + 1) kinds
    | .symbol .rightParen | .symbol .rightBrace => 0 < depth && isEnclosed (depth - 1) kinds
    | .symbol .semicolon => 0 < depth && isEnclosed depth kinds
    | .keyword .create | .keyword .define | .keyword .evaluate => 0 < depth && isEnclosed depth kinds
    | _ => isEnclosed depth kinds

/-- Whether tokens are a single statement that is not supported.  It may begin with a keyword that
begins a statement, but another one would begin the next statement. -/
def isForeignStatement : List TokenKind → Bool
  | [] => false
  | first :: rest =>
    first.isForeign (rest.headD .endOfInput) &&
      match first with
      | .keyword _ => isEnclosed 0 rest
      | _ => isEnclosed 0 (first :: rest)

/-- A keyword that would end the statement stands inside only. -/
theorem isEnclosed_of_keyword {depth : Nat} {word : Keyword} {kinds : List TokenKind}
    (enclosed : isEnclosed depth (.keyword word :: kinds) = true) :
    (word.startsStatement = true → depth ≠ 0) ∧ isEnclosed depth kinds = true := by
  have inside (both : (decide (0 < depth) && isEnclosed depth kinds) = true) :
      (word.startsStatement = true → depth ≠ 0) ∧ isEnclosed depth kinds = true := by
    obtain ⟨some, enclosed⟩ := Bool.and_eq_true_iff.mp both
    exact ⟨fun _ => Nat.ne_of_gt (of_decide_eq_true some), enclosed⟩
  cases word with
  | create => exact inside enclosed
  | define => exact inside enclosed
  | evaluate => exact inside enclosed
  | _ => exact ⟨nofun, enclosed⟩

theorem isBalanced_of_isEnclosed {depth : Nat} {kinds : List TokenKind}
    (enclosed : isEnclosed depth kinds = true) : isBalanced depth kinds = true := by
  induction kinds generalizing depth with
  | nil => exact enclosed
  | cons kind kinds ih =>
    cases kind with
    | keyword word => exact ih (isEnclosed_of_keyword enclosed).2
    | symbol sign =>
      unfold isEnclosed at enclosed
      unfold isBalanced
      cases sign <;> simp_all
    | _ => exact ih enclosed

namespace Turn

/-- **What is enclosed is passed over to its end.** -/
theorem pass_of_isEnclosed {depth : Nat} {tokens : List Token}
    (enclosed : isEnclosed depth (tokens.map (·.kind)) = true) :
    pass depth tokens = (⟨0, []⟩, []) := by
  induction tokens generalizing depth with
  | nil => rfl
  | cons token rest ih =>
    rw [List.map_cons] at enclosed
    simp only [pass]
    cases kind : token.kind with
    | symbol sign =>
      rw [kind] at enclosed
      unfold isEnclosed at enclosed
      cases sign with
      | semicolon =>
        obtain ⟨inside, enclosed⟩ := Bool.and_eq_true_iff.mp enclosed
        have some : depth ≠ 0 := Nat.ne_of_gt (of_decide_eq_true inside)
        simp only [if_neg some]
        exact ih enclosed
      | rightParen => exact ih (Bool.and_eq_true_iff.mp enclosed).2
      | rightBrace => exact ih (Bool.and_eq_true_iff.mp enclosed).2
      | _ => exact ih enclosed
    | keyword word =>
      rw [kind] at enclosed
      obtain ⟨inside, enclosed⟩ := isEnclosed_of_keyword enclosed
      have goesOn : ¬(depth = 0 ∧ word.startsStatement = true) := by
        rintro ⟨outside, starts⟩
        exact inside starts outside
      simp only [if_neg goesOn]
      exact ih enclosed
    | _ =>
      rw [kind] at enclosed
      exact ih enclosed

end Turn

/-- What is not supported is recognised as such. -/
theorem exists_recognised?_of_isForeign {first : Token} {next : TokenKind}
    (foreign : first.kind.isForeign next = true) :
    first.kind ≠ .symbol .semicolon ∧ ∃ statement, recognised? first next = some statement := by
  unfold recognised?
  generalize first.kind = kind at foreign ⊢
  refine ⟨fun sign => by simp [sign, TokenKind.isForeign] at foreign, ?_⟩
  cases kind with
  | keyword word =>
    cases word with
    | define => cases foreign
    | evaluate => cases foreign
    | create =>
      cases next with
      | keyword object =>
        cases object with
        | measure => cases foreign
        | _ => exact ⟨_, rfl⟩
      | identifier word =>
        have other : sameIgnoringCase word keyPerformanceIndicatorWord = false := by
          simpa [TokenKind.isForeign, keyPerformanceIndicatorWord] using foreign
        exact ⟨_, if_neg (by simp [other])⟩
      | _ => exact ⟨_, rfl⟩
    | _ => exact ⟨_, rfl⟩
  | symbol sign =>
    cases sign with
    | equal => cases foreign
    | _ => exact ⟨_, rfl⟩
  | _ => exact ⟨_, rfl⟩

section Foreign

variable {passed : String}
  (foreign : isForeignStatement ((Input.ofSource passed).tokens.map (·.kind)) = true)
  (noSign : (nextKind (Input.ofSource passed).tokens).opens = false)
include foreign noSign

/-- A statement that is not supported is enclosed behind its first token. -/
theorem exists_tokens_of_isForeignStatement :
    ∃ opening rest, (Input.ofSource passed).tokens = opening :: rest ∧
      opening.kind.isForeign (nextKind rest) = true ∧
      isEnclosed 0 (rest.map (·.kind)) = true ∧
      isBalanced 0 ((opening :: rest).map (·.kind)) = true := by
  cases tokens : (Input.ofSource passed).tokens with
  | nil =>
    rw [tokens] at foreign
    cases foreign
  | cons opening rest =>
    rw [tokens] at foreign noSign
    have next : (rest.map (·.kind)).headD .endOfInput = nextKind rest := by
      cases rest <;> rfl
    rw [List.map_cons] at foreign
    obtain ⟨begins, enclosed⟩ := Bool.and_eq_true_iff.mp foreign
    rw [next] at begins
    refine ⟨opening, rest, rfl, begins, ?_⟩
    change opening.kind.opens = false at noSign
    rw [List.map_cons]
    generalize opening.kind = kind at begins enclosed noSign ⊢
    cases kind with
    | keyword word =>
      have inner : isEnclosed 0 (rest.map (·.kind)) = true := enclosed
      have balanced := isBalanced_of_isEnclosed inner
      exact ⟨inner, balanced⟩
    | symbol sign =>
      have whole := isBalanced_of_isEnclosed enclosed
      cases sign with
      | leftParen => cases noSign
      | leftBrace => cases noSign
      | rightParen => cases enclosed
      | rightBrace => cases enclosed
      | semicolon => cases enclosed
      | _ => exact ⟨enclosed, whole⟩
    | _ => exact ⟨enclosed, isBalanced_of_isEnclosed enclosed⟩

/-- **A statement that is not supported is a script without measures**, about which nothing is
told. -/
theorem readScript_of_isForeignStatement (sound : lexicalDiagnostics passed = [])
    (options : ScriptOptions) :
    (readScript passed options).collector = .withLimit options.maxErrors ∧
      (readScript passed options).measures = [] := by
  obtain ⟨opening, rest, tokens, begins, enclosed, _⟩ :=
    exists_tokens_of_isForeignStatement foreign noSign
  obtain ⟨noSemicolon, statement, recognised⟩ := exists_recognised?_of_isForeign begins
  have silent : (Input.ofSource passed).faults.flatten = [] := by
    rw [Input.faults_ofSource, ← lexicalDiagnostics_eq, sound]
  have isTurn := @Turn.ofTokens_of_recognised? passed.toList (Input.ofSource passed).finish _ _ _
    noSemicolon recognised
  have passes := Turn.pass_of_isEnclosed enclosed
  have last : (Turn.passAfter (Turn.recognition opening rest statement) rest).rest = [] := by
    rw [Turn.passAfter, passes]
  obtain ⟨collector, measures⟩ := readScript_of_turn options silent tokens isTurn last (by
    cases statement <;> simp [Turn.lookingAt, Turn.passAfter, passes, Turn.recognition,
      Event.diagnostics])
  refine ⟨collector, measures.trans ?_⟩
  cases statement <;> simp [Turn.lookingAt, Turn.passAfter, passes, Turn.recognition,
    Event.measures]

end Foreign

/-! ## Scripts with a statement between them -/

namespace Relocation

/-- From a text to the same text with some lines put in behind its beginning. -/
def inserting (front lines : List Char) : Relocation where
  offset place := if place < byteLength front then place else place + byteLength lines
  position place :=
    if place.offset < byteLength front then place
    else ⟨place.offset + byteLength lines, place.line + lines.count '\n', place.column⟩
  monotone before := by
    split <;> split <;> omega
  consistent place := by
    split <;> rfl

variable {front lines : List Char}

theorem inserting_behind (place : Nat) :
    (inserting front lines).offset ((behindLines front).offset place) =
      (behindLines front).offset ((behindLines lines).offset place) := by
  have behind : ¬place + byteLength front < byteLength front := by omega
  simp only [inserting, behindLines, if_neg behind]
  omega

/-- What stands behind the beginning stands behind the lines as well. -/
theorem measure_inserting_behind (measure : Measure) :
    (inserting front lines).measure ((behindLines front).measure measure) =
      (behindLines front).measure ((behindLines lines).measure measure) := by
  simp only [Relocation.measure, Relocation.span, Span.moved, inserting_behind]

theorem diagnostic_inserting_behind (diagnostic : Diagnostic) :
    (inserting front lines).diagnostic ((behindLines front).diagnostic diagnostic) =
      (behindLines front).diagnostic ((behindLines lines).diagnostic diagnostic) := by
  have behind : ¬diagnostic.position.offset + byteLength front < byteLength front := by omega
  simp only [Relocation.diagnostic, inserting, behindLines, if_neg behind, Nat.add_right_comm]

/-- What ends within the beginning stays. -/
theorem measure_inserting {measure : Measure} (forward : measure.span.start ≤ measure.span.stop)
    (inside : measure.span.stop < byteLength front) :
    (inserting front lines).measure measure = measure := by
  have starts : measure.span.start < byteLength front := by omega
  simp only [Relocation.measure, Relocation.span, Span.moved, inserting, if_pos starts,
    if_pos inside]

end Relocation

/-- Some lines put into a script behind its beginning change nothing that is recorded, but move what
stands behind them. -/
structure Inserts (front lines : String) (without whole : Recording) : Prop where
  measures : whole.measures =
    without.measures.map (Relocation.inserting front.toList lines.toList).measure
  diagnostics : whole.collector.items =
    without.collector.items.map (Relocation.inserting front.toList lines.toList).diagnostic
  overflowed : whole.collector.overflowed = without.collector.overflowed
  complete : whole.isComplete = without.isComplete

/-- A script whose lines compose with another one silently are inserted in front of it. -/
theorem Composes.inserts {front lines : String} {first passed second both without whole : Recording}
    (inside : ∀ measure ∈ first.measures, measure.span.start ≤ measure.span.stop ∧
      measure.span.stop < byteLength front.toList)
    (nothing : passed.measures = []) (composes : Composes front first second without)
    (inserted : Composes lines passed second both) (outer : Composes front first both whole) :
    Inserts front lines without whole := by
  have stays : first.measures.map (Relocation.inserting front.toList lines.toList).measure =
      first.measures := by
    have same : first.measures.map (Relocation.inserting front.toList lines.toList).measure =
        first.measures.map id := by
      refine List.map_congr_left fun measure member => ?_
      exact Relocation.measure_inserting (inside measure member).1 (inside measure member).2
    rw [same, List.map_id]
  refine ⟨?_, ?_, ?_, ?_⟩
  · rw [outer.measures, inserted.measures, nothing, List.nil_append, composes.measures,
      List.map_append, stays, List.map_map, List.map_map]
    refine congrArg _ (List.map_congr_left fun measure _ => ?_)
    exact (Relocation.measure_inserting_behind measure).symm
  · rw [outer.diagnostics, inserted.diagnostics, composes.diagnostics, List.map_map, List.map_map]
    refine List.map_congr_left fun diagnostic _ => ?_
    exact (Relocation.diagnostic_inserting_behind diagnostic).symm
  · rw [outer.overflowed, inserted.overflowed, composes.overflowed]
  · rw [outer.complete, inserted.complete, composes.complete]

/-- **Statements that are not supported are passed over whole and silently.**  Put between two
scripts, the first of which is without errors and balanced, such a statement moves what is recorded
of the second and changes nothing else, as long as it begins with no opening sign. -/
theorem readScript_insert (first : String) (before : ScriptOptions)
    (right : (readScript first before).collector.items = [])
    (balanced : isBalanced 0 ((Input.ofSource first).tokens.map (·.kind)) = true)
    (passed : String) (sound : lexicalDiagnostics passed = [])
    (foreign : isForeignStatement ((Input.ofSource passed).tokens.map (·.kind)) = true)
    (noSign : (nextKind (Input.ofSource passed).tokens).opens = false)
    (second : String) (options : ScriptOptions) :
    Inserts (first ++ "\n;\n") (passed ++ "\n;\n")
      (readScript (first ++ "\n;\n" ++ second) options)
      (readScript (first ++ "\n;\n" ++ passed ++ "\n;\n" ++ second) options) := by
  obtain ⟨collector, nothing⟩ := readScript_of_isForeignStatement foreign noSign sound before
  obtain ⟨opening, rest, tokens, _, _, balancedPassed⟩ :=
    exists_tokens_of_isForeignStatement foreign noSign
  rw [← tokens] at balancedPassed
  have rightPassed : (readScript passed before).collector.items = [] := by
    rw [collector]
    rfl
  have inside : ∀ measure ∈ (readScript first before).measures,
      measure.span.start ≤ measure.span.stop ∧
        measure.span.stop < byteLength (first ++ "\n;\n").toList := by
    intro measure member
    obtain ⟨forward, fits⟩ := (wellFormed_of_mem_measures member).bounds
    have lines : 0 < byteLength "\n;\n".toList := by decide
    rw [String.toList_append, byteLength_append]
    omega
  have whole : first ++ "\n;\n" ++ passed ++ "\n;\n" ++ second =
      first ++ "\n;\n" ++ (passed ++ "\n;\n" ++ second) := by
    simp only [String.append_assoc]
  rw [whole]
  exact Composes.inserts inside nothing (.semicolon right balanced second options)
    (.semicolon rightPassed balancedPassed second options)
    (.semicolon right balanced (passed ++ "\n;\n" ++ second) options)

/-- Between a measure and a query, a statement with a semicolon in its parentheses:
`SCOPE ( {;} DEFINE ) -- all`. -/
theorem readScript_insert_scope :
    let first := "CREATE MEASURE t[a] = 1"
    let passed := "SCOPE ( \x7b;\x7d DEFINE ) -- all"
    (readScript first {}).collector.items = [] ∧
      isBalanced 0 ((Input.ofSource first).tokens.map (·.kind)) = true ∧
      lexicalDiagnostics passed = [] ∧
      isForeignStatement ((Input.ofSource passed).tokens.map (·.kind)) = true ∧
      (nextKind (Input.ofSource passed).tokens).opens = false ∧
      Inserts (first ++ "\n;\n") (passed ++ "\n;\n")
        (readScript (first ++ "\n;\n" ++ "EVALUATE 1 2") {})
        (readScript (first ++ "\n;\n" ++ passed ++ "\n;\n" ++ "EVALUATE 1 2") {}) := by
  intro first passed
  have right : (readScript first {}).collector.items = [] := by decide +kernel
  have balanced : isBalanced 0 ((Input.ofSource first).tokens.map (·.kind)) = true := by
    decide +kernel
  have sound : lexicalDiagnostics passed = [] := by decide +kernel
  have foreign : isForeignStatement ((Input.ofSource passed).tokens.map (·.kind)) = true := by
    decide +kernel
  have noSign : (nextKind (Input.ofSource passed).tokens).opens = false := by decide +kernel
  exact ⟨right, balanced, sound, foreign, noSign,
    readScript_insert first {} right balanced passed sound foreign noSign "EVALUATE 1 2" {}⟩

/-- Inside of parentheses that such a statement begins with, a semicolon ends it, and what stands
behind it is read as a statement and refused. -/
theorem readScript_insert_opening :
    let passed := "(;=)"
    (readScript "" {}).collector.items = [] ∧
      isBalanced 0 ((Input.ofSource "").tokens.map (·.kind)) = true ∧
      lexicalDiagnostics passed = [] ∧
      isForeignStatement ((Input.ofSource passed).tokens.map (·.kind)) = true ∧
      ¬Inserts "\n;\n" (passed ++ "\n;\n") (readScript "\n;\nCREATE MEASURE t[a] = 1" {})
        (readScript ("\n;\n" ++ passed ++ "\n;\nCREATE MEASURE t[a] = 1") {}) := by
  refine ⟨by decide +kernel, by decide +kernel, by decide +kernel, by decide +kernel, ?_⟩
  intro inserts
  have counts := congrArg List.length inserts.measures
  rw [List.length_map] at counts
  revert counts
  decide +kernel

end DaxScript
