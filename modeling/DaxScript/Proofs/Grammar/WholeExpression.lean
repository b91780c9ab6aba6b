import DaxScript.Proofs.Diagnostic.Collecting
import DaxScript.Proofs.Grammar.ExpressionRule
import DaxScript.Proofs.Token.Separation
import DaxScript.Script

/-!
# Sources that are a single expression

A source is read as an expression when its tokens, without an equals sign in front, make up one to
the end of the input and nothing is wrong with its text (`readExpression_ok_iff`).  So a text that
was put together from fitting pieces is read as the expression that their tokens make up
(`readExpression_of_pieces`).
-/

set_option autoImplicit false

namespace DaxScript

open Production

/-- The tokens of an expression, without an equals sign in front. -/
def withoutEquals : List Token → List Token
  | [] => []
  | first :: rest => if first.kind = .symbol .equal then rest else first :: rest

theorem expressionOfTokens_eq (tokens : List Token) :
    expressionOfTokens tokens = (do
      let parsed ← Production.expression (withoutEquals tokens)
      Production.finish parsed.rest
      .ok parsed.value) := by
  cases tokens <;> rfl

theorem expressionOfTokens_ok_iff {tokens : List Token} {expr : Expr} :
    expressionOfTokens tokens = .ok expr ↔
      Yields (Production.expression (withoutEquals tokens)) expr [] := by
  rw [expressionOfTokens_eq]
  cases Production.expression (withoutEquals tokens) with
  | error refusal =>
    constructor
    · intro same
      cases same
    · intro reading
      exact absurd reading Yields.not_error
  | ok parsed =>
    obtain ⟨value, rest, fits⟩ := parsed
    rw [Yields.ok_iff]
    cases rest with
    | nil => exact ⟨fun same => ⟨Except.ok.inj same, rfl⟩, fun both => congrArg Except.ok both.1⟩
    | cons =>
      constructor
      · intro same
        cases same
      · intro both
        cases both.2

/-- A list of tokens is read to its end when the rule says so. -/
theorem yields_climb_iff {levels : Nat} {tokens : List Token} {expr : Expr} :
    Yields (climb (operand levels) 0 tokens) expr [] ↔
      Rule.Expression (Rule.operandRule levels) 0 tokens expr .endOfInput := by
  have described := describes_climb (describes_operand levels) 0
  constructor
  · intro yields
    obtain ⟨used, same, reading⟩ := described.sound yields
    rw [same, List.append_nil]
    exact reading
  · intro reading
    have yields : Yields (climb (operand levels) 0 (tokens ++ [])) expr [] :=
      described.complete reading
    rwa [List.append_nil] at yields

theorem yields_expression_iff {tokens : List Token} {expr : Expr} :
    Yields (Production.expression tokens) expr [] ↔
      Rule.ExpressionOfLevel 0 tokens expr .endOfInput :=
  yields_climb_iff

/-- No token is missing but an equals sign. -/
theorem equal_or_mem_withoutEquals {tokens : List Token} {token : Token}
    (member : token ∈ tokens) : token.kind = .symbol .equal ∨ token ∈ withoutEquals tokens := by
  cases tokens with
  | nil => cases member
  | cons first rest =>
    rw [withoutEquals]
    split
    · next equals =>
      rcases List.mem_cons.mp member with rfl | later
      · exact .inl equals
      · exact .inr later
    · exact .inr member

theorem withoutEquals_of_nextKind {tokens : List Token}
    (noSign : nextKind tokens ≠ .symbol .equal) : withoutEquals tokens = tokens := by
  cases tokens with
  | nil => rfl
  | cons first rest => exact if_neg noSign

/-- No expression begins with an equals sign. -/
theorem nextKind_ne_equal {tokens : List Token} {expr : Expr}
    (reading : Rule.ExpressionOfLevel 0 tokens expr .endOfInput) :
    nextKind tokens ≠ .symbol .equal := by
  intro equals
  cases tokens with
  | nil => cases equals
  | cons token rest =>
    have equals : token.kind = .symbol .equal := equals
    have yields := yields_expression_iff.mpr reading
    obtain ⟨first, left, _, operandRead, _⟩ := yields.bind
    have refused : Production.operand maxNesting (token :: rest) =
        .error (noOperand (token :: rest)) := by
      change operandOf _ (token :: rest) = _
      simp only [operandOf, equals]
    rw [refused] at operandRead
    exact Yields.not_error operandRead

theorem withoutEquals_of_expression {tokens : List Token} {expr : Expr}
    (reading : Rule.ExpressionOfLevel 0 tokens expr .endOfInput) :
    withoutEquals tokens = tokens :=
  withoutEquals_of_nextKind (nextKind_ne_equal reading)

/-- An expression is accepted when its tokens make up one and nothing is wrong with its text. -/
theorem readExpression_ok_iff {source : String} {expr : Expr} :
    readExpression source = .ok expr ↔
      expressionOfTokens (Piece.tokens .start (Piece.all source.toList)) = .ok expr ∧
        ∀ piece ∈ Piece.all source.toList, piece.fault? = none := by
  have noErrors : ((Collector.withLimit Collector.defaultMaxErrors).pushAll
      (Piece.faults .start (Piece.all source.toList)).flatten).hasErrors = false ↔
        ∀ piece ∈ Piece.all source.toList, piece.fault? = none := by
    rw [Collector.hasErrors_pushAll, Collector.hasErrors_withLimit, Bool.false_or,
      ← Piece.flatten_faults_eq_nil_iff, List.any_eq_false]
    constructor
    · intro noError
      refine List.eq_nil_iff_forall_not_mem.mpr fun diagnostic member => ?_
      exact noError diagnostic member (Piece.isError_of_mem_faults member)
    · intro empty
      rw [empty]
      simp
  rw [← noErrors]
  simp only [readExpression, Input.tokens_ofSource, Input.faults_ofSource]
  cases expressionOfTokens (Piece.tokens .start (Piece.all source.toList)) with
  | error refusal => simp
  | ok value =>
    cases ((Collector.withLimit Collector.defaultMaxErrors).pushAll
      (Piece.faults .start (Piece.all source.toList)).flatten).hasErrors <;> simp

/-- The equals sign in front may also stand in front of other tokens. -/
theorem exists_front (tokens : List Token) :
    ∃ front, tokens = front ++ withoutEquals tokens ∧
      ∀ others, nextKind others ≠ .symbol .equal → withoutEquals (front ++ others) = others := by
  cases tokens with
  | nil => exact ⟨[], rfl, fun _ => withoutEquals_of_nextKind⟩
  | cons first rest =>
    by_cases equals : first.kind = .symbol .equal
    · exact ⟨[first], by simp [withoutEquals, equals], fun _ _ => if_pos equals⟩
    · exact ⟨[], by simp [withoutEquals, equals], fun _ => withoutEquals_of_nextKind⟩

theorem exists_append_withoutEquals (tokens : List Token) :
    ∃ front, tokens = front ++ withoutEquals tokens := by
  obtain ⟨front, same, _⟩ := exists_front tokens
  exact ⟨front, same⟩

/-- **A text put together from fitting pieces is read as what their tokens make up.** -/
theorem readExpression_of_pieces {source : String} {pieces : List Piece} {expr : Expr}
    (written : source.toList = Piece.text pieces) (together : Piece.FitTogether [] pieces)
    (sound : ∀ piece ∈ pieces, piece.fault? = none)
    (reading : Rule.ExpressionOfLevel 0 (Piece.tokens .start pieces) expr .endOfInput) :
    readExpression source = .ok expr := by
  have cut : Piece.all source.toList = pieces := by
    rw [written]
    exact Piece.all_text together
  rw [readExpression_ok_iff, cut, expressionOfTokens_ok_iff, withoutEquals_of_expression reading]
  exact ⟨yields_expression_iff.mpr reading, sound⟩

end DaxScript
