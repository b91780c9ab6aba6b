import DaxScript.Proofs.Grammar.Excerpt
import DaxScript.Proofs.Grammar.OperandRelocation
import DaxScript.Proofs.Grammar.Subtrees
import DaxScript.Proofs.Grammar.WholeExpression

/-!
# The spans of an expression are faithful

Every node of an expression knows the part of the source that it was read from.  Read by itself,
this part gives the node again, with its offsets counted from the start of the part
(`readExpression_slice`).

The tokens of a node make it up by themselves (`Rule.ExpressionOfLevel.locates`), and its span
reaches from the first of them to the last (`Rule.ExpressionOfLevel.covers`).  The pieces under
that span are cut in the same way out of context (`Piece.all_cut`), so the part has just these
tokens, counted from its start (`Relocation.Follows.tokens`).
-/

set_option autoImplicit false

namespace DaxScript

open Production

/-- The pieces of a part of a source are the pieces of the part, if they end with an operand. -/
theorem Piece.all_middle {source : List Char} {front middle behind : List Piece}
    (cut : Piece.all source = front ++ (middle ++ behind))
    (sound : ∀ piece ∈ Piece.all source, piece.fault? = none)
    {earlier : List Piece} {last : Piece} {position : Position} {token : Token}
    (ending : middle = earlier ++ [last]) (single : last.ownTokens position = [token])
    (ends : Rule.endsOperand token.kind = true) : Piece.all (Piece.text middle) = middle := by
  refine Piece.all_within cut (fun piece member => sound piece ?_) ending single ends
  rw [cut]
  exact List.mem_append_right _ (List.mem_append_left _ member)

/-- **Spans are faithful**: the text under the span of any node of an expression is a source for
the node itself, with all offsets counted from the start of the text. -/
theorem readExpression_slice {source : String} {expr node : Expr} {depth : Nat}
    (accepted : readExpression source = .ok expr) (member : (depth, node) ∈ expr.subtrees 0) :
    ∃ text, node.span.slice? source.toList = some text ∧
      readExpression (String.ofList text) = .ok (node.moved (· - node.span.start)) := by
  obtain ⟨tokensAccepted, sound⟩ := readExpression_ok_iff.mp accepted
  have whole := yields_expression_iff.mp (expressionOfTokens_ok_iff.mp tokensAccepted)
  obtain ⟨before, own, after, cut, reading⟩ :=
    whole.locates (Expr.subtree_of_mem_subtrees member)
  -- The tokens of the node stand on pieces that follow each other.
  obtain ⟨equals, sameTokens⟩ :=
    exists_append_withoutEquals (Piece.tokens .start (Piece.all source.toList))
  rw [cut, ← List.append_assoc] at sameTokens
  have ordered := Piece.inOrder_tokens .start (Piece.all source.toList)
  rw [sameTokens] at ordered
  have covered := reading.covers ordered.right.left
  obtain ⟨front, middle, behind, pieces, middleTokens, nodeSpan, earlier, last, position, token,
    ending, single, isLast⟩ := Piece.tokens_segment sameTokens covered
  have split : source.toList = Piece.text front ++ (Piece.text middle ++ Piece.text behind) := by
    rw [← Piece.text_append, ← Piece.text_append, ← pieces]
    exact (Piece.spellings _).symm
  have start : node.span = ⟨byteLength (Piece.text front),
      byteLength (Piece.text front) + byteLength (Piece.text middle)⟩ := by
    rw [nodeSpan]
    simp [Position.start]
  refine ⟨Piece.text middle, by rw [start, split, Span.slice?_append], ?_⟩
  -- Out of their context they are cut in the same way.
  have samePieces : Piece.all (Piece.text middle) = middle := by
    obtain ⟨_, token', rfl, ends⟩ := Rule.ExpressionOfLevel.endsWithOperand 0 reading
    obtain rfl : token' = token := by
      rw [List.getLast?_concat] at isLast
      exact Option.some.inj isLast
    exact Piece.all_middle pieces sound ending single ends
  -- There the same tokens are read, only from the start on.
  have follows := Relocation.follows_startingAt (Position.start.advanceAll (Piece.text front))
  have moved := follows.tokens middle
  rw [Relocation.startingAt_start, middleTokens] at moved
  have yieldsOwn := yields_expression_iff.mpr reading
  rw [← moved] at yieldsOwn
  obtain ⟨inner, left, yields, sameNode, noRest⟩ :=
    (Relocation.natural_expressionOfLevel 0 (Piece.tokens .start middle)).yields yieldsOwn
  obtain rfl : left = [] := List.map_eq_nil_iff.mp noRest.symm
  have isInner : node.moved (· - node.span.start) = inner := by
    have back : (· - node.span.start) ∘
        (Relocation.startingAt (Position.start.advanceAll (Piece.text front))).offset = id := by
      funext offset
      simp [Relocation.startingAt, start, Position.start]
    rw [sameNode] at back ⊢
    rw [Relocation.expr, Expr.moved_moved]
    exact (congrArg (inner.moved ·) back).trans (Expr.moved_id inner)
  rw [isInner, readExpression_ok_iff, String.toList_ofList, samePieces, expressionOfTokens_ok_iff,
    withoutEquals_of_expression (yields_expression_iff.mp yields)]
  refine ⟨yields, fun piece member => sound piece ?_⟩
  rw [pieces]
  exact List.mem_append_right _ (List.mem_append_left _ member)

/-- In `=y+(x+[M])` the part from the third byte to the tenth is `(x+[M])`, which is the sum
again. -/
theorem readExpression_slice_group :
    let sum := Expr.node (.binary .add (.node (.tableName "x") ⟨4, 5⟩) (.node (.measure "M") ⟨6, 9⟩))
      ⟨3, 10⟩
    ∃ text, sum.span.slice? "=y+(x+[M])".toList = some text ∧
      readExpression (String.ofList text) = .ok (sum.moved (· - sum.span.start)) := by
  intro sum
  have accepted : readExpression "=y+(x+[M])" =
      .ok (.node (.binary .add (.node (.tableName "y") ⟨1, 2⟩) sum) ⟨1, 10⟩) := by
    cbv
  exact readExpression_slice accepted (Expr.mem_subtrees_of_mem_children (.tail _ (.head _)) 0)

end DaxScript
