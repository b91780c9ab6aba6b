import DaxScript.Proofs.Grammar.Openers
import DaxScript.Proofs.Grammar.Path
import DaxScript.Proofs.Recovery
import DaxScript.Proofs.Script.SingleStatement
import DaxScript.Proofs.ToldOnce

/-!
# The limit on nesting

Parentheses, calls and operators in front of an operand may be put around each other up to 127
times, in any order, and then everything is accepted.  From 128 of them on there is one diagnostic,
at the token behind the 128th, whatever stands there and behind it (`nestingLimit_exact`).  That
there is only one is because no token of an expression ends a statement, so all that was left unread
is passed over.

In the trees the limit shows as well: no path crosses more than 127 edges that lead to an expression
inside of an operand.  The edges to the operands of a binary operator do not count, and neither does
the one to what stands in front of filters.
-/

set_option autoImplicit false

namespace DaxScript

open Production Piece

/-! ## Scripts without an end of a statement -/

namespace Turn

/-- Passing over tokens none of which ends a statement leaves nothing. -/
theorem pass_eq_nil {tokens : List Token}
    (goesOn : ∀ token ∈ tokens, endsStatement token.kind = false) (depth : Nat) :
    (pass depth tokens).2 = [] := by
  induction tokens generalizing depth with
  | nil => rfl
  | cons token tokens ih =>
    rw [List.forall_mem_cons] at goesOn
    have goesOnHere := goesOn.1
    have onward := ih goesOn.2
    unfold pass
    simp only
    split
    · next kind =>
      rw [kind] at goesOnHere
      cases goesOnHere
    · next word kind =>
      rw [kind] at goesOnHere
      have noStart : word.startsStatement = false := goesOnHere
      simp [noStart, onward]
    all_goals exact onward _

variable {source : List Char} {finish : Position} {first : Token} {rest : List Token}

/-- **Where no further token ends a statement there is a single turn**, and what is told is why its
statement is refused. -/
theorem allTold_of_goesOn (noSign : first.kind ≠ .symbol .semicolon)
    (goesOn : ∀ token ∈ rest, endsStatement token.kind = false) :
    allTold source finish (first :: rest) =
      ((refusal? first rest).map (·.diagnostic finish)).toList := by
  have last : (ofTokens source finish first rest).rest = [] := by
    have course := course source finish first rest
    generalize ofTokens source finish first rest = turn at course
    cases course with
    | semicolon sign => exact absurd sign noSign
    | passed => exact pass_eq_nil goesOn 0
    | @read statement used left _ cut reading =>
      -- A token behind the statement would end it.
      have ends := reading.ends
      obtain ⟨_, others, rfl, _⟩ := reading.exists_first
      obtain ⟨_, rfl⟩ := List.cons.inj cut
      cases left with
      | nil => rfl
      | cons token left =>
        rw [nextKind_cons, goesOn token (List.mem_append_right others (.head left))] at ends
        cases ends
    | refused =>
      exact pass_eq_nil (fun token member => goesOn token (List.mem_of_mem_drop member)) 0
  rw [allTold_cons, told_ofTokens, last, allTold_nil, List.append_nil]

end Turn

/-! ## Queries of operands in operands -/

/-- A query of a number in any number of operands. -/
def nestedQuery (openers : List Opener) : String :=
  "EVALUATE " ++ String.ofList (openers.flatMap fun opener => opener.opens.toList) ++ "1" ++
    String.ofList (openers.reverse.flatMap fun opener => opener.closes.toList)

/-- Where the text is that stands behind some openers of a query. -/
def Opener.behind (openers : List Opener) : Position :=
  Position.start.advanceAll
    ("EVALUATE ".toList ++ openers.flatMap fun opener => opener.opens.toList)

namespace Opener

variable (openers : List Opener)

/-- The tokens of a query of operands in operands: its word, and the tokens behind the word. -/
theorem exists_tokens :
    ∃ word : Token, word.kind = .keyword .evaluate ∧
      (Input.ofSource (nestedQuery openers)).tokens =
        word :: tokens (behind []) (around openers) ∧
      lexicalDiagnostics (nestedQuery openers) = [] := by
  have tidy : Tidy ([ofKeyword .evaluate] ++ space :: around openers) :=
    .append (tidy_ofKeyword _) (tidy_around openers).behindSpace (separated_space _)
  have written : (nestedQuery openers).toList =
      text ([ofKeyword .evaluate] ++ space :: around openers) := by
    simp only [nestedQuery, String.toList_append, String.toList_ofList, List.append_assoc,
      text_append, text_cons, text_nil, text_around]
    rfl
  have cut : Piece.all (nestedQuery openers).toList =
      [ofKeyword .evaluate] ++ space :: around openers := by
    rw [written]
    exact Piece.all_text tidy.together
  refine ⟨Token.place (.keyword .evaluate) .start Keyword.evaluate.name.toList, rfl, ?_, ?_⟩
  · rw [Input.tokens_ofSource, cut, List.singleton_append, tokens_ofKeyword, tokens_space]
    rfl
  · rw [lexicalDiagnostics_eq_nil_iff, cut]
    exact tidy.sound

/-- What is told of a query is why it is refused. -/
theorem toldDiagnostics_nestedQuery {word : Token} (opens : word.kind = .keyword .evaluate)
    (same : (Input.ofSource (nestedQuery openers)).tokens =
      word :: tokens (behind []) (around openers))
    (sound : lexicalDiagnostics (nestedQuery openers) = []) :
    toldDiagnostics (nestedQuery openers) =
      ((Turn.refusal? word (tokens (behind []) (around openers))).map
        (·.diagnostic (Input.ofSource (nestedQuery openers)).finish)).toList := by
  rw [toldDiagnostics_of_sound sound, same]
  exact Turn.allTold_of_goesOn (by simp [opens]) goesOn

/-- **With up to 127 openers nothing is wrong.** -/
theorem toldDiagnostics_of_few (few : openers.length < maxNesting) :
    toldDiagnostics (nestedQuery openers) = [] := by
  obtain ⟨word, opens, same, sound⟩ := exists_tokens openers
  obtain ⟨value, reading⟩ := exists_reading openers few 0 (behind [])
    (rfl : BinaryOperator.ofKind? .endOfInput = none)
  have query : Rule.Query (word :: (tokens (behind []) (around openers) ++ [])) ⟨value, []⟩
      .endOfInput := .intro opens reading (.absent rfl) rfl
  rw [List.append_nil] at query
  obtain ⟨parsed, read, _⟩ :=
    yields_statement_of_rule (List.append_nil _).symm (.evaluate query)
  rw [toldDiagnostics_nestedQuery openers opens same sound, Turn.refusal?, if_neg (by simp [opens]),
    read]
  rfl

/-- A query is refused for what its table is refused for. -/
theorem refusal?_of_expression {word : Token} {rest : List Token} {refusal : Refusal}
    (opens : word.kind = .keyword .evaluate)
    (refused : Production.expression rest = .error refusal) :
    Turn.refusal? word rest = some refusal := by
  have outcome : Production.statement word rest = .error refusal := by
    simp only [Production.statement, opens, Production.query, keyword, if_true]
    change ((Production.expression rest >>= _) >>= _) = _
    rw [refused]
    rfl
  rw [Turn.refusal?, if_neg (by simp [opens]), outcome]

theorem advanceAll_behind (front : List Opener) :
    (behind []).advanceAll (text (front.flatMap opening)) = behind front := by
  rw [text_flatMap_opening, behind, behind, ← Position.advanceAll_append, List.flatMap_nil,
    List.append_nil]

/-- **With more openers there is one diagnostic**, at the token behind the 128th. -/
theorem toldDiagnostics_of_many (many : maxNesting ≤ openers.length) :
    ∃ token ∈ (Input.ofSource (nestedQuery openers)).tokens,
      token.position = behind (openers.take maxNesting) ∧
        toldDiagnostics (nestedQuery openers) =
          [.error .grammar (Issue.nestingTooDeep maxNesting).message token.position] := by
  obtain ⟨word, opens, same, sound⟩ := exists_tokens openers
  let front := openers.take maxNesting
  let rest := around (openers.drop maxNesting) ++ front.reverse.flatMap closing
  have split : around openers = front.flatMap opening ++ rest := by
    rw [← around_append, List.take_append_drop]
  have all : front.length = maxNesting := List.length_take_of_le many
  have begins (position : Position) : ∃ token later, tokens position rest = token :: later ∧
      token.kind ≠ .symbol .rightParen ∧ token.position = position :=
    exists_first_around (openers.drop maxNesting) (front.reverse.flatMap closing) position
  have noClose (position : Position) : nextKind (tokens position rest) ≠ .symbol .rightParen := by
    obtain ⟨token, later, cut, noClose, _⟩ := begins position
    rw [cut]
    exact noClose
  have refused : Production.expression (tokens (behind []) (around openers)) =
      .error (refuse (tokens (behind front) rest) (.nestingTooDeep maxNesting)) := by
    have refused := climb_refused front 0 (behind []) noClose
    rwa [all, advanceAll_behind, ← split] at refused
  obtain ⟨token, later, cut, _, placed⟩ := begins (behind front)
  refine ⟨token, ?_, placed, ?_⟩
  · rw [same, split, tokens_append, advanceAll_behind, cut]
    simp
  · rw [toldDiagnostics_nestedQuery openers opens same sound, refusal?_of_expression opens refused,
      cut]
    rfl

end Opener

/-- Edges that nest are as few as the levels that are opened. -/
theorem pathLaw_nests : PathLaw fun levels _ edges => edges.countP Edge.nests < levels where
  left inner := inner
  right _ inner := inner
  alone := Nat.succ_pos _
  target := Nat.succ_pos _
  group inner := Nat.lt_succ_of_lt inner
  nested nests inner := by
    rw [List.countP_cons_of_pos nests]
    exact Nat.succ_lt_succ inner
  row {levels level edges} inner := by
    rw [List.countP_cons_of_pos rfl] at inner ⊢
    exact Nat.lt_succ_of_lt inner

/-- **The limit on nesting is exact.**  A query of a number in parentheses, calls and operators is
accepted with up to 127 of them, and with more there is one diagnostic, at the token behind the
128th.  In the expressions that are accepted no path crosses more than 127 edges to an expression
inside of an operand. -/
theorem nestingLimit_exact :
    (∀ openers options,
      let items := (readScript (nestedQuery openers) options).collector.items
      (items = [] ↔ openers.length ≤ 127) ∧
        (128 ≤ openers.length → ∃ token ∈ (Input.ofSource (nestedQuery openers)).tokens,
          token.position = Opener.behind (openers.take 128) ∧
            items = [.error .grammar "syntax error, expression nesting exceeds 128 levels"
              token.position])) ∧
      ∀ source expr, readExpression source = .ok expr →
        ∀ edges node, expr.Path edges node → edges.countP Edge.nests ≤ 127 := by
  constructor
  · intro openers options items
    rcases Nat.lt_or_ge openers.length maxNesting with few | many
    · have told := Opener.toldDiagnostics_of_few openers few
      have kept : items = [] := by
        refine (items_of_length_le ?_).trans told
        rw [told]
        exact Nat.zero_le _
      exact ⟨⟨fun _ => Nat.le_of_lt_succ few, fun _ => kept⟩,
        fun many => absurd few (Nat.not_lt.mpr many)⟩
    · obtain ⟨token, member, placed, told⟩ := Opener.toldDiagnostics_of_many openers many
      -- One diagnostic is kept under every limit.
      have kept : items = [.error .grammar (Issue.nestingTooDeep maxNesting).message
          token.position] := by
        refine (items_of_length_le ?_).trans told
        rw [told]
        exact Nat.le_max_right _ 1
      refine ⟨⟨fun nothing => ?_, fun few => absurd many (Nat.not_le.mpr (Nat.lt_succ_of_le few))⟩,
        fun _ => ⟨token, member, placed, kept⟩⟩
      rw [kept] at nothing
      cases nothing
  · intro source expr accepted edges node path
    exact Nat.le_of_lt_succ (pathLaw_nests.of_readExpression accepted edges node path)

/-- Four openers are accepted, and of 129 signs the last one is refused. -/
theorem nestingLimit_exact_mixed :
    nestedQuery [.group, .call, .unary .logicalNot, .unary .negate] =
        "EVALUATE (ABS(NOT - 1))" ∧
      (readScript (nestedQuery [.group, .call, .unary .logicalNot, .unary .negate])
        {}).collector.items = [] ∧
      (readScript (nestedQuery (List.replicate 129 (.unary .plus))) {}).collector.items =
        [.error .grammar "syntax error, expression nesting exceeds 128 levels" ⟨265, 1, 266⟩] := by
  refine ⟨by decide, ?_, ?_⟩
  · exact (nestingLimit_exact.1 [.group, .call, .unary .logicalNot, .unary .negate] {}).1.mpr
      (by decide)
  · obtain ⟨token, _, placed, items⟩ :=
      (nestingLimit_exact.1 (List.replicate 129 (.unary .plus)) {}).2 (by simp)
    have place : Opener.behind (List.replicate 128 (.unary .plus)) = ⟨265, 1, 266⟩ := by
      decide +kernel
    rw [List.take_replicate] at placed
    rw [items, placed, ← place]
    rfl

end DaxScript
