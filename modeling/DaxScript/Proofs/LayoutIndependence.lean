import DaxScript.Proofs.Grammar.Printing
import DaxScript.Proofs.Grammar.WholeExpression
import DaxScript.Proofs.Script.Relocation
import DaxScript.Proofs.StatelessTokens

/-!
# Layout makes no difference

White space and comments between tokens have no influence on what a source says.  Sources that are
worded alike are read alike, as an expression and as a script: all that differs is where things
stand and the text that measures are given verbatim (`layout_independent`).

Nothing has to be said about two readings at once.  There is a relocation that takes all places to
a single one.  It takes sources that are worded alike to the same tokens, because the text of a
token determines its kind, and the reading of either source to the reading of these.
-/

set_option autoImplicit false

namespace DaxScript

/-- How the tokens of a source are written, in order and without the comments. -/
def wording (source : String) : List String :=
  ((tokenize source).filter (·.kind.isSignificant)).map (·.spelling)

/-! ## All places are one place -/

namespace Relocation

/-- From anywhere to one place. -/
def nowhere : Relocation where
  offset _ := 0
  position _ := .start
  monotone _ := Nat.le_refl 0
  consistent _ := rfl

/-- An expression is taken nowhere by forgetting its spans. -/
theorem expr_nowhere (expr : Expr) : nowhere.expr expr = expr.bare := by
  induction expr using Expr.byChildren with
  | step expr ih =>
    obtain ⟨form, span⟩ := expr
    have sameChildren : form.map (Expr.moved nowhere.offset) = form.map Expr.bare :=
      Form.map_congr ih
    rw [Relocation.expr, Expr.moved_node, Expr.bare_node, sameChildren]
    rfl

/-- The token that a text is by itself, taken nowhere. -/
def respelled (spelling : String) : Token :=
  nowhere.token ((tokenize spelling).headD (Token.atEnd .start))

/-- **A token is determined by its text**, but for its place. -/
theorem respelled_spelling {source : String} {token : Token}
    (member : token ∈ (Input.ofSource source).tokens) :
    respelled token.spelling = nowhere.token token := by
  rw [Input.tokens_ofSource] at member
  obtain ⟨front, behind, cut⟩ := List.append_of_mem member
  obtain ⟨before, piece, after, pieces, _, own, _⟩ := Piece.tokens_eq_append cut
  have placed := (Piece.mem_ownTokens_iff.mp (own ▸ List.mem_singleton_self token)).1
  have isPiece : piece ∈ Piece.all source.toList := by simp [pieces]
  have written := Piece.eq_place_of_token? placed
  have spelled : token.spelling = String.ofList piece.spelling := congrArg Token.spelling written
  rw [respelled, spelled, tokenize_spelling isPiece placed]
  conv_rhs => rw [written]
  rfl

/-- Sources that are worded alike have the same tokens, taken nowhere. -/
theorem map_nowhere_eq {first second : String} (same : wording first = wording second) :
    (Input.ofSource first).tokens.map nowhere.token =
      (Input.ofSource second).tokens.map nowhere.token := by
  have respelledTokens (source : String) :
      (Input.ofSource source).tokens.map nowhere.token = (wording source).map respelled := by
    rw [wording, List.map_map]
    exact List.map_congr_left fun token member => (respelled_spelling member).symm
  rw [respelledTokens, respelledTokens, same]

/-- The tokens of pieces taken nowhere are the same wherever the pieces stand. -/
theorem map_nowhere_tokens (position place : Position) (pieces : List Piece) :
    (Piece.tokens position pieces).map nowhere.token =
      (Piece.tokens place pieces).map nowhere.token := by
  induction pieces generalizing position place with
  | nil => rfl
  | cons piece pieces ih =>
    have own : (piece.ownTokens position).map nowhere.token =
        (piece.ownTokens place).map nowhere.token := by
      cases piece with
      | token kind spelling fault =>
        unfold Piece.ownTokens
        cases trivia : kind.isTrivia
        · simp only [Piece.token?, Option.filter, Token.place, trivia]
          rfl
        · simp only [Piece.token?, Option.filter, Token.place, trivia]
          rfl
      | _ => rfl
    rw [Piece.tokens, Piece.tokens, List.map_append, List.map_append, own, ih]

end Relocation

/-- A source without faults has an empty group of diagnostics for each token and for the end. -/
theorem Input.faults_eq_replicate {source : String} (sound : lexicalDiagnostics source = []) :
    (ofSource source).faults = List.replicate ((ofSource source).tokens.length + 1) [] := by
  have silent := @Piece.faults_append .start _ [] (lexicalDiagnostics_eq_nil_iff.mp sound)
  rw [List.append_nil] at silent
  rw [faults_ofSource, tokens_ofSource, silent, List.replicate_succ']
  rfl

/-! ## Expressions -/

theorem Relocation.withoutEquals_map (place : Relocation) (tokens : List Token) :
    withoutEquals (tokens.map place.token) = (withoutEquals tokens).map place.token := by
  cases tokens with
  | nil => rfl
  | cons first rest =>
    by_cases equals : first.kind = .symbol .equal
    · simp [withoutEquals, equals]
    · simp [withoutEquals, equals]

/-- Relocated tokens make up the relocated expression, or are refused in the relocated place. -/
theorem Relocation.expressionOfTokens_map (place : Relocation) (tokens : List Token) :
    expressionOfTokens (tokens.map place.token) =
      ((expressionOfTokens tokens).map place.expr).mapError place.refusal := by
  have moves : place.Moves place.expr (Production.expression (withoutEquals tokens)) _ :=
    natural_expressionOfLevel 0 (withoutEquals tokens)
  rw [expressionOfTokens_eq, expressionOfTokens_eq, withoutEquals_map]
  change (do
    let parsed ← Production.expressionOfLevel 0 ((withoutEquals tokens).map place.token)
    Production.finish parsed.rest
    .ok parsed.value) = _
  rw [moves]
  cases Production.expression (withoutEquals tokens) with
  | error refusal => rfl
  | ok parsed =>
    obtain ⟨value, rest, fits⟩ := parsed
    cases rest with
    | nil => rfl
    | cons token rest =>
      have same : Production.expected ((token :: rest).map place.token) .endOfInput =
          place.refusal (Production.expected (token :: rest) .endOfInput) := by
        simp [Production.expected, Production.refuse, Relocation.refusal, nextKind, nextPosition?]
        rfl
      exact congrArg Except.error same

/-- Two outcomes of reading a source as an expression are alike: the same expression up to spans, or
diagnostics of the same kinds with the same messages. -/
inductive ExpressionsAlike : Except Failure Expr → Except Failure Expr → Prop where
  | read {first second : Expr} (same : first.bare = second.bare) :
      ExpressionsAlike (.ok first) (.ok second)
  | refused {first second : Failure}
      (same : first.diagnostics.map (fun diagnostic => (diagnostic.kind, diagnostic.message)) =
        second.diagnostics.map fun diagnostic => (diagnostic.kind, diagnostic.message)) :
      ExpressionsAlike (.error first) (.error second)

/-- A source without faults is refused as an expression for the single reason that its tokens
are. -/
theorem readExpression_of_sound {source : String} (sound : lexicalDiagnostics source = []) :
    readExpression source = (expressionOfTokens (Input.ofSource source).tokens).mapError
      fun refusal => ⟨(Collector.withLimit Collector.defaultMaxErrors).push
        (refusal.diagnostic (Input.ofSource source).finish)⟩ := by
  have silent := Input.faults_eq_replicate sound
  simp only [readExpression, Input.faultsBefore, silent, List.take_replicate,
    List.flatten_replicate_nil]
  cases expressionOfTokens (Input.ofSource source).tokens with
  | ok value => rfl
  | error refusal => rfl

/-! ## Scripts -/

/-- What remains of a measure without its place and without the texts that it is given verbatim. -/
def Measure.nowhere (measure : Measure) : Measure :=
  { measure with expression := "", fullText := "", span := ⟨0, 0⟩ }

/-- Where there is no text there is none under the spans of a definition. -/
theorem Relocation.carries_nowhere (source : List Char) :
    nowhere.Carries Measure.nowhere source [] := by
  intro clause
  have whole : (nowhere.clause clause).span = ⟨0, 0⟩ := span_clause clause
  have body : (nowhere.clause clause).body.span = ⟨0, 0⟩ := span_expr clause.body
  simp only [Measure.ofClause, whole, body]
  rfl

/-- Two recordings are alike: the same measures, but for places and verbatim texts, diagnostics of
the same kinds with the same messages, and the same end. -/
structure RecordingsAlike (first second : Recording) : Prop where
  measures : first.measures.map
      (fun measure => (measure.tableName, measure.name, measure.property)) =
    second.measures.map fun measure => (measure.tableName, measure.name, measure.property)
  diagnostics : first.collector.items.map
      (fun diagnostic => (diagnostic.kind, diagnostic.message)) =
    second.collector.items.map fun diagnostic => (diagnostic.kind, diagnostic.message)
  complete : first.isComplete = second.isComplete

/-- Recordings that are the same when taken nowhere are alike. -/
theorem RecordingsAlike.of_continues {first second joined : Recording}
    (continuesFirst : Relocation.Continues .nowhere Measure.nowhere [] first joined)
    (continuesSecond : Relocation.Continues .nowhere Measure.nowhere [] second joined) :
    RecordingsAlike first second := by
  have measures := continuesFirst.measures.symm.trans continuesSecond.measures
  have collectors := continuesFirst.collector.symm.trans continuesSecond.collector
  refine ⟨?_, ?_, ?_⟩
  · have names := congrArg (List.map fun measure : Measure =>
      (measure.tableName, measure.name, measure.property)) measures
    simp only [List.nil_append, List.map_map] at names
    exact names
  · have told := congrArg (fun collector => collector.items.map
      fun diagnostic : Diagnostic => (diagnostic.kind, diagnostic.message)) collectors
    simp only [Relocation.collector, List.map_map] at told
    exact told
  · exact congrArg (fun collector => !collector.overflowed) collectors

/-- What is recorded of a source without faults, taken nowhere, is recorded of its tokens, taken
nowhere. -/
theorem Relocation.continues_nowhere {source : String} (sound : lexicalDiagnostics source = [])
    (options : ScriptOptions) :
    let tokens := (Input.ofSource source).tokens.map nowhere.token
    Continues nowhere Measure.nowhere [] (readScript source options)
      ((Recording.withLimit options.maxErrors).readOn [] .start
        (List.replicate (tokens.length + 1) []) tokens) := by
  have start : Continues nowhere Measure.nowhere [] (Recording.withLimit options.maxErrors)
      (Recording.withLimit options.maxErrors) := ⟨rfl, rfl⟩
  have continues := start.readOn (carries_nowhere source.toList) (Input.ofSource source).finish
    (Input.ofSource source).faults (Input.ofSource source).tokens
  have silent : (Input.ofSource source).faults.map (List.map nowhere.diagnostic) =
      List.replicate (((Input.ofSource source).tokens.map nowhere.token).length + 1) [] := by
    rw [Input.faults_eq_replicate sound, List.map_replicate, List.length_map]
    rfl
  rw [silent] at continues
  exact continues

/-! ## Both -/

/-- **Layout makes no difference.**  Sources without faults whose tokens are written alike, whatever
stands between them, are read alike: as an expression, and as a script with any limit on errors. -/
theorem layout_independent {first second : String} (soundFirst : lexicalDiagnostics first = [])
    (soundSecond : lexicalDiagnostics second = []) (same : wording first = wording second) :
    ExpressionsAlike (readExpression first) (readExpression second) ∧
      ∀ options, RecordingsAlike (readScript first options) (readScript second options) := by
  have tokens := Relocation.map_nowhere_eq same
  constructor
  · have outcomes := congrArg expressionOfTokens tokens
    rw [Relocation.expressionOfTokens_map, Relocation.expressionOfTokens_map] at outcomes
    rw [readExpression_of_sound soundFirst, readExpression_of_sound soundSecond]
    generalize expressionOfTokens (Input.ofSource first).tokens = outcome at outcomes ⊢
    generalize expressionOfTokens (Input.ofSource second).tokens = outcome' at outcomes ⊢
    cases outcome with
    | ok value =>
      cases outcome' with
      | ok value' =>
        have bare := Except.ok.inj outcomes
        rw [Relocation.expr_nowhere, Relocation.expr_nowhere] at bare
        exact .read bare
      | error => cases outcomes
    | error refusal =>
      cases outcome' with
      | ok => cases outcomes
      | error refusal' =>
        have relocated : Relocation.nowhere.refusal refusal = Relocation.nowhere.refusal refusal' :=
          Except.error.inj outcomes
        have sameIssue := congrArg Refusal.issue relocated
        change refusal.issue = refusal'.issue at sameIssue
        refine .refused ?_
        simp only [Failure.diagnostics, Collector.push]
        rw [Refusal.diagnostic, Refusal.diagnostic, sameIssue]
        rfl
  · intro options
    have continues := Relocation.continues_nowhere soundFirst options
    rw [tokens] at continues
    exact .of_continues continues (Relocation.continues_nowhere soundSecond options)

/-- A measure and an expression with one value too many, once on a single line and once spread over
several with comments of both kinds. -/
theorem layout_independent_comments :
    let first := "CREATE MEASURE 't'[a]=1+2;=3 4"
    let second := "CREATE -- new
  MEASURE 't' [a] // one
= 1 + 2
;
= 3
4 --"
    lexicalDiagnostics first = [] ∧ lexicalDiagnostics second = [] ∧
      wording first = wording second ∧
      ExpressionsAlike (readExpression first) (readExpression second) ∧
      ∀ options, RecordingsAlike (readScript first options) (readScript second options) := by
  intro first second
  have soundFirst : lexicalDiagnostics first = [] := by decide +kernel
  have soundSecond : lexicalDiagnostics second = [] := by decide +kernel
  have same : wording first = wording second := by decide +kernel
  exact ⟨soundFirst, soundSecond, same, layout_independent soundFirst soundSecond same⟩

end DaxScript
