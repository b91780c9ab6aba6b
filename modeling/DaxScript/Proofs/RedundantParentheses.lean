import DaxScript.Proofs.Grammar.Agreement
import DaxScript.Proofs.Grammar.Excerpt
import DaxScript.Proofs.Grammar.Parentheses
import DaxScript.Proofs.Grammar.Words
import DaxScript.Proofs.LayoutIndependence
import DaxScript.Proofs.Token.Insertion

/-!
# Redundant parentheses

Any part of an accepted expression may be put in parentheses without changing the tree, if the
expression does not get too deep (`readExpression_parenthesized`).

The text is cut into the same pieces as before, apart from the parentheses and the line feed
(`Piece.all_parenthesized`).  This needs that no token of an expression is a point, and none is
because every token says something (`Tells.ne_dot`).  So the tokens are the same up to places, and
the rules read them as the same expression, if operands may be nested one level more
(`Rule.ExpressionOfLevel.regroups`).  The production that has no such level agrees with the one
that has, or it is refused because of the nesting (`Production.agree_operand`).
-/

set_option autoImplicit false

namespace DaxScript

open Production

/-- The text with a parenthesis in front of a span, and a line feed and a parenthesis behind it.
There is none when the span does not fit the text. -/
def Span.parenthesize? (span : Span) (chars : List Char) : Option (List Char) :=
  if span.start ≤ span.stop then do
    let inFront ← splitAtByte? span.start chars
    let covered ← splitAtByte? span.length inFront.2
    some (inFront.1 ++ '(' :: (covered.1 ++ '\n' :: ')' :: covered.2))
  else none

theorem Span.parenthesize?_append (before covered after : List Char) :
    (Span.mk (byteLength before) (byteLength before + byteLength covered)).parenthesize?
      (before ++ (covered ++ after)) =
        some (before ++ '(' :: (covered ++ '\n' :: ')' :: after)) := by
  simp only [parenthesize?, length, Nat.le_add_right, if_true, Nat.add_sub_cancel_left,
    splitAtByte?_append, Option.bind_eq_bind, Option.bind_some]

/-! ## Tokens taken nowhere -/

/-- Parentheses as they are written. -/
def Parentheses.plain : Parentheses where
  opening := Token.place (.symbol .leftParen) .start ['(']
  closing := Token.place (.symbol .rightParen) .start [')']
  opens := rfl
  closes := rfl

/-- The tokens of pieces in parentheses, taken nowhere. -/
theorem Relocation.map_nowhere_parenthesized {front middle behind : List Piece}
    {inFront own after : List Token} {place place' : Position}
    (frontTokens : Piece.tokens .start front = inFront)
    (middleTokens : Piece.tokens place middle = own)
    (behindTokens : Piece.tokens place' behind = after) :
    (Piece.tokens .start (front ++ Piece.ofSymbol .leftParen ::
        (middle ++ Piece.blank '\n' :: Piece.ofSymbol .rightParen :: behind))).map nowhere.token =
      (inFront ++ Parentheses.plain.opening ::
        (own ++ Parentheses.plain.closing :: after)).map nowhere.token := by
  subst frontTokens middleTokens behindTokens
  simp only [Piece.tokens_append, Piece.tokens, List.map_append, List.map_cons]
  rw [map_nowhere_tokens _ place middle, map_nowhere_tokens _ place' behind]
  rfl

/-! ## Sources -/

/-- **Tokens of a source that follow each other may be put in parentheses**: up to places the source
then has the same tokens and the parentheses, and nothing is wrong with it. -/
theorem exists_parenthesized {source : String} {inFront own after : List Token} {span : Span}
    (sound : ∀ piece ∈ Piece.all source.toList, piece.fault? = none)
    (noPoint : ∀ piece ∈ Piece.all source.toList, piece.spelling ≠ ['.'])
    (placed : Piece.tokens .start (Piece.all source.toList) = inFront ++ (own ++ after))
    (covered : span.Covers own) :
    ∃ text, span.parenthesize? source.toList = some text ∧
      lexicalDiagnostics (String.ofList text) = [] ∧
      (Input.ofSource (String.ofList text)).tokens.map Relocation.nowhere.token =
        (inFront ++ Parentheses.plain.opening ::
          (own ++ Parentheses.plain.closing :: after)).map Relocation.nowhere.token := by
  obtain ⟨front, middle, behind, pieces, middleTokens, behindTokens, bounds,
    ⟨piece, later, token, begins, single⟩, _⟩ := Piece.tokens_cut placed covered
  have frontTokens : Piece.tokens .start front = inFront := by
    rw [pieces, Piece.tokens_append, Piece.tokens_append, middleTokens,
      ← Position.advanceAll_append, ← Piece.text_append, behindTokens] at placed
    exact List.append_cancel_right placed
  have split : source.toList = Piece.text front ++ (Piece.text middle ++ Piece.text behind) := by
    rw [← Piece.text_append, ← Piece.text_append, ← pieces]
    exact (Piece.spellings _).symm
  have start : Position.start.offset + byteLength (Piece.text front) =
      byteLength (Piece.text front) := Nat.zero_add _
  have noLineEnd : (Piece.text (middle ++ behind)).head?.any (!Piece.isLineEnd ·) = true := by
    have isPiece : piece ∈ Piece.all source.toList := by simp [pieces, begins]
    rw [begins, List.cons_append, Piece.text_cons]
    exact Piece.noLineEnd_of_ownTokens isPiece single _
  refine ⟨_, by rw [bounds, split, start, Span.parenthesize?_append], ?_, ?_⟩
  · rw [lexicalDiagnostics_eq_nil_iff, String.toList_ofList]
    exact Piece.sound_parenthesized sound noPoint pieces noLineEnd
  · rw [Input.tokens_ofSource, String.toList_ofList,
      Piece.all_parenthesized sound noPoint pieces noLineEnd,
      Relocation.map_nowhere_parenthesized frontTokens middleTokens behindTokens]

/-- No piece of an accepted expression is a point. -/
theorem noPoint_of_accepted {source : String} {expr : Expr}
    (accepted : readExpression source = .ok expr) :
    ∀ piece ∈ Piece.all source.toList, piece.spelling ≠ ['.'] := by
  intro piece member point
  obtain ⟨char, later, same⟩ := Piece.eq_first_of_mem_all member
  have read : Piece.first char later = (piece, (Piece.first char later).2) := by rw [same]
  have isDot := Piece.eq_dot_of_spelling read point
  obtain ⟨front, behind, cut⟩ := List.append_of_mem member
  let token := Token.place (.symbol .dot) (Position.start.advanceAll (Piece.text front)) ['.']
  have isToken : token ∈ Piece.tokens .start (Piece.all source.toList) := by
    rw [cut, Piece.tokens_append, Piece.tokens, isDot]
    exact List.mem_append_right _ (List.mem_append_left _ (List.mem_singleton_self token))
  have whole := yields_expression_iff.mp
    (expressionOfTokens_ok_iff.mp (readExpression_ok_iff.mp accepted).1)
  rcases equal_or_mem_withoutEquals isToken with equals | member
  · cases equals
  · exact whole.tells.ne_dot token member rfl

/-- **Around the tokens of a part of an accepted expression the rules read parentheses**: the same
expression up to spans, with one level of nesting more. -/
theorem exists_regrouped {source : String} {expr node : Expr}
    (accepted : readExpression source = .ok expr) (free : node.FreeSubtree expr) :
    ∃ inFront own after, Piece.tokens .start (Piece.all source.toList) = inFront ++ (own ++ after) ∧
      node.span.Covers own ∧ ∃ value, value.bare = expr.bare ∧
        Yields (climb (operand 129) 0 (withoutEquals (inFront ++
          Parentheses.plain.opening :: (own ++ Parentheses.plain.closing :: after)))) value [] := by
  have whole := yields_expression_iff.mp
    (expressionOfTokens_ok_iff.mp (readExpression_ok_iff.mp accepted).1)
  obtain ⟨used, value, enclose, same, reading⟩ :=
    Rule.ExpressionOfLevel.regroups .plain 0 whole free
  have noEquals : nextKind used ≠ .symbol .equal := by
    have before := nextKind_ne_equal whole
    rw [nextKind_eq_kindAfter] at before ⊢
    exact enclose.kindAfter_ne (by decide) before
  obtain ⟨before, own, after, cut, rfl, levels, inside⟩ := enclose.exists_parts
  obtain ⟨equals, placed, strips⟩ :=
    exists_front (Piece.tokens .start (Piece.all source.toList))
  have ordered := Piece.inOrder_tokens .start (Piece.all source.toList)
  rw [cut, ← List.append_assoc] at placed
  rw [placed] at ordered
  have covered := Rule.Expression.spanned (Rule.operandRule_spanned levels) 0 inside
    ordered.right.left
  refine ⟨equals ++ before, own, after, placed, covered, value, same, ?_⟩
  rw [List.append_assoc, strips _ noEquals]
  exact yields_climb_iff.mpr reading

/-- A source without faults whose tokens are refused because of the nesting is told just that. -/
theorem readExpression_tooDeep {source : String} (sound : lexicalDiagnostics source = [])
    {refusal : Refusal} (reason : refusal.issue = .nestingTooDeep maxNesting)
    (refused : Production.expression (withoutEquals (Input.ofSource source).tokens) =
      .error refusal) :
    ∃ failure, readExpression source = .error failure ∧
      failure.diagnostics.map (·.message) =
        ["syntax error, expression nesting exceeds 128 levels"] := by
  have message : refusal.issue.message = "syntax error, expression nesting exceeds 128 levels" := by
    rw [reason]
    decide +kernel
  rw [readExpression_of_sound sound, expressionOfTokens_eq, refused, ← message]
  exact ⟨_, rfl, rfl⟩

/-- **Redundant parentheses make no difference.**  Put in parentheses, with a line feed in front of
the closing one, any part of an accepted expression leaves the tree the same up to spans, unless
the expression is refused for nothing but its nesting; one more level would be enough for it. -/
theorem readExpression_parenthesized {source : String} {expr node : Expr}
    (accepted : readExpression source = .ok expr) (free : node.FreeSubtree expr) :
    ∃ text, node.span.parenthesize? source.toList = some text ∧
      ∃ same, same.bare = expr.bare ∧
        Yields (climb (operand 129) 0
          (withoutEquals (Input.ofSource (String.ofList text)).tokens)) same [] ∧
        (readExpression (String.ofList text) = .ok same ∨
          ∃ failure, readExpression (String.ofList text) = .error failure ∧
            failure.diagnostics.map (·.message) =
              ["syntax error, expression nesting exceeds 128 levels"]) := by
  obtain ⟨inFront, own, after, placed, covered, value, sameValue, reading⟩ :=
    exists_regrouped accepted free
  obtain ⟨text, isText, sound, places⟩ := exists_parenthesized
    (readExpression_ok_iff.mp accepted).2 (noPoint_of_accepted accepted) placed covered
  refine ⟨text, isText, ?_⟩
  -- The tokens are the same up to places, so the same expression is read up to spans.
  have natural : Relocation.nowhere.Natural _ (climb (operand (maxNesting + 1)) 0) :=
    Relocation.natural_climb (maxNesting + 1) 0
  have carried := (natural _).carries reading
  rw [← Relocation.withoutEquals_map, ← places, Relocation.withoutEquals_map] at carried
  obtain ⟨same, left, yields, sameNowhere, noRest⟩ := (natural _).yields carried
  obtain rfl : left = [] := List.map_eq_nil_iff.mp noRest.symm
  rw [Relocation.expr_nowhere, Relocation.expr_nowhere] at sameNowhere
  refine ⟨same, sameNowhere.symm.trans sameValue, yields, ?_⟩
  -- One level less makes a difference only if there is none left.
  have agree := agree_climb (agree_operand maxNesting _) 0
    (withoutEquals (Input.ofSource (String.ofList text)).tokens) (Nat.le_refl _)
  rcases agree.yields yields with read | ⟨refusal, refused, reason⟩
  · refine .inl (readExpression_ok_iff.mpr ⟨?_, lexicalDiagnostics_eq_nil_iff.mp sound⟩)
    rw [expressionOfTokens_ok_iff, ← Input.tokens_ofSource]
    exact read
  · exact .inr (readExpression_tooDeep sound reason refused)

/-- In `=x-y-z` the first difference is read as it was when it stands in parentheses. -/
theorem readExpression_parenthesized_difference :
    let difference := Expr.node
      (.binary .subtract (.node (.tableName "x") ⟨1, 2⟩) (.node (.tableName "y") ⟨3, 4⟩)) ⟨1, 4⟩
    let expr := Expr.node (.binary .subtract difference (.node (.tableName "z") ⟨5, 6⟩)) ⟨1, 6⟩
    difference.span.parenthesize? "=x-y-z".toList = some "=(x-y\n)-z".toList ∧
      readExpression "=x-y-z" = .ok expr ∧ difference.FreeSubtree expr ∧
      ∃ text, difference.span.parenthesize? "=x-y-z".toList = some text ∧
        ∃ same, same.bare = expr.bare ∧
          Yields (climb (operand 129) 0
            (withoutEquals (Input.ofSource (String.ofList text)).tokens)) same [] ∧
          (readExpression (String.ofList text) = .ok same ∨
            ∃ failure, readExpression (String.ofList text) = .error failure ∧
              failure.diagnostics.map (·.message) =
                ["syntax error, expression nesting exceeds 128 levels"]) := by
  intro difference expr
  have accepted : readExpression "=x-y-z" = .ok expr := by
    cbv
  have free : difference.FreeSubtree expr := .under (.head _) .self
  exact ⟨by decide, accepted, free, readExpression_parenthesized accepted free⟩

end DaxScript
