import DaxScript.Proofs.Grammar.Children
import DaxScript.Proofs.Grammar.WholeExpression
import DaxScript.Proofs.Grammar.Words
import DaxScript.Proofs.LosslessTokens

/-!
# Reading an expression loses nothing

Nothing of an accepted expression is dropped, written twice or moved (`readExpression_lossless`).
The words of the tree are those of the tokens, one for each token that is neither the equals sign
in front nor a sign that encloses or separates; and the parts of the source that the children of a
node were read from are some of its tokens each, do not overlap and come in the order of the
children.

The words tell where the marks `VAR`, `=`, `RETURN` and `DATATABLE` stand.  Without the marks and
their tokens the words are those of the literals, names, columns and operators of the tree.
-/

set_option autoImplicit false

namespace DaxScript

/-- The tokens of the words that are more than marks. -/
def withoutMarks (tokens : List Token) (words : List Word) : List Token :=
  ((tokens.zip words).filter (·.2.isPayload)).map (·.1)

/-- What tokens say one by one, some of them say as well. -/
theorem means_withoutMarks {tokens : List Token} {words : List Word}
    (means : List.Forall₂ Token.Means tokens words) :
    List.Forall₂ Token.Means (withoutMarks tokens words) (words.filter Word.isPayload) := by
  induction means with
  | nil => exact .nil
  | @cons token word tokens words first _ ih =>
    cases payload : word.isPayload with
    | false =>
      rw [withoutMarks, List.zip_cons_cons, List.filter_cons_of_neg (by simp [payload]),
        List.filter_cons_of_neg (by simp [payload])]
      exact ih
    | true =>
      rw [withoutMarks, List.zip_cons_cons, List.filter_cons_of_pos (by simp [payload]),
        List.filter_cons_of_pos payload]
      exact .cons first ih

/-- The children of a node have places of their own in it. -/
structure Expr.ChildrenInPlace (tokens : List Token) (node : Expr) : Prop where
  nonempty : ∀ child ∈ node.children, child.span.start < child.span.stop
  inside : ∀ child ∈ node.children,
    node.span.start ≤ child.span.start ∧ child.span.stop ≤ node.span.stop
  apart : node.children.Pairwise fun first second => first.span.stop ≤ second.span.start
  /-- Each begins where a token begins and ends where one ends. -/
  atTokens : ∀ child ∈ node.children, (∃ token ∈ tokens, child.span.start = token.span.start) ∧
    ∃ token ∈ tokens, child.span.stop = token.span.stop

/-- A token that the grammar reads covers something. -/
theorem Input.start_lt_stop {source : String} {token : Token}
    (member : token ∈ (Input.ofSource source).tokens) : token.span.start < token.span.stop := by
  obtain ⟨isToken, meaning⟩ := List.mem_filter.mp member
  rw [tokenize_eq] at isToken
  rcases List.mem_append.mp isToken with own | isLast
  · exact Piece.start_lt_stop own
  · rw [List.mem_singleton.mp isLast] at meaning
    cases meaning

namespace Span.Covers

variable {span : Span} {tokens : List Token} (covered : span.Covers tokens)
  (ordered : InOrder tokens)
include covered ordered

/-- A span over some tokens contains each of them. -/
theorem bounds {token : Token} (member : token ∈ tokens) :
    span.start ≤ token.span.start ∧ token.span.stop ≤ span.stop := by
  obtain ⟨first, last, head, tail, rfl⟩ := covered
  obtain ⟨others, rfl⟩ := List.head?_eq_some_iff.mp head
  have bound := ordered.stop_le_last member
  rw [List.getLast?_cons] at tail
  rw [Option.some.inj tail] at bound
  refine ⟨?_, bound⟩
  rcases List.mem_cons.mp member with rfl | later
  · exact Nat.le_refl _
  · have ordered : InOrder ([first] ++ others) := ordered
    exact Nat.le_trans (ordered.forward first (.head _)) (ordered.stop_le (.head _) later)

/-- A span over tokens that cover something covers something. -/
theorem start_lt_stop (solid : ∀ token ∈ tokens, token.span.start < token.span.stop) :
    span.start < span.stop := by
  obtain ⟨first, _, head, _, _⟩ := id covered
  have isFirst : first ∈ tokens := List.mem_of_mem_head? head
  have inside := covered.bounds ordered isFirst
  have width := solid first isFirst
  omega

/-- A span over some of the tokens lies inside. -/
theorem within {inner : Span} {own : List Token} (part : inner.Covers own)
    (among : ∀ token ∈ own, token ∈ tokens) :
    span.start ≤ inner.start ∧ inner.stop ≤ span.stop := by
  obtain ⟨first, last, head, tail, rfl⟩ := part
  exact ⟨(covered.bounds ordered (among first (List.mem_of_mem_head? head))).1,
    (covered.bounds ordered (among last (List.mem_of_getLast? tail))).2⟩

end Span.Covers

/-- What is placed in the tokens of a node has places of its own in the node. -/
theorem Placed.inPlace {tokens used : List Token} {node : Expr}
    (placed : Placed used node.children) (covered : node.span.Covers used)
    (ordered : InOrder used) (among : ∀ token ∈ used, token ∈ tokens)
    (solid : ∀ token ∈ tokens, token.span.start < token.span.stop) :
    node.ChildrenInPlace tokens := by
  -- Each child is covered by tokens of the node.
  have part {child : Expr} (member : child ∈ node.children) :
      ∃ own, child.span.Covers own ∧ InOrder own ∧ ∀ token ∈ own, token ∈ used := by
    obtain ⟨before, own, after, rfl, covers⟩ := placed.exists_covered member
    exact ⟨own, covers, ordered.right.left, fun token isOwn =>
      List.mem_append_right _ (List.mem_append_left _ isOwn)⟩
  refine ⟨fun child member => ?_, fun child member => ?_, placed.apart ordered,
    fun child member => ?_⟩
  · obtain ⟨own, covers, ownOrdered, ownAmong⟩ := part member
    exact covers.start_lt_stop ownOrdered fun token isOwn =>
      solid token (among token (ownAmong token isOwn))
  · obtain ⟨own, covers, _, ownAmong⟩ := part member
    exact covered.within ordered covers ownAmong
  · obtain ⟨own, ⟨first, last, head, tail, isSpan⟩, _, ownAmong⟩ := part member
    have isFirst := among first (ownAmong first (List.mem_of_mem_head? head))
    have isLast := among last (ownAmong last (List.mem_of_getLast? tail))
    rw [isSpan]
    exact ⟨⟨first, isFirst, rfl⟩, ⟨last, isLast, rfl⟩⟩

/-- **Reading an expression loses nothing.**  The tokens behind an equals sign in front say, one by
one, what the tree says from left to right, once the signs that enclose and separate are left out;
so the tokens of literals, names, columns and operators are those of the tree.  The children of
every node have places of their own in it, in their order. -/
theorem readExpression_lossless {source : String} {expr : Expr}
    (accepted : readExpression source = .ok expr) :
    let tokens := (Input.ofSource source).tokens
    let words := spoken (withoutEquals tokens)
    List.Forall₂ Token.Means words expr.words ∧
      List.Forall₂ Token.Means (withoutMarks words expr.words) expr.payloads ∧
      ∀ depth node, (depth, node) ∈ expr.subtrees 0 → node.ChildrenInPlace tokens := by
  intro tokens words
  have placed : tokens = Piece.tokens .start (Piece.all source.toList) := Input.tokens_ofSource source
  have read := (readExpression_ok_iff.mp accepted).1
  rw [← placed] at read
  have whole := yields_expression_iff.mp (expressionOfTokens_ok_iff.mp read)
  have means : List.Forall₂ Token.Means words expr.words := whole.tells
  refine ⟨means, means_withoutMarks means, fun depth node member => ?_⟩
  obtain ⟨before, own, after, cut, reading⟩ :=
    whole.locates (Expr.subtree_of_mem_subtrees member)
  obtain ⟨equals, sameTokens⟩ := exists_append_withoutEquals tokens
  rw [cut] at sameTokens
  have ordered : InOrder tokens := Input.inOrder_tokens source
  rw [sameTokens] at ordered
  have ordered : InOrder own := ordered.right.right.left
  refine (reading.placed ordered).inPlace (reading.covers ordered) ordered (fun token isOwn => ?_)
    fun token => Input.start_lt_stop
  rw [sameTokens]
  simp [isOwn]

/-- In `=VAR x=y RETURN{(x,-[M])}` a sign stands between the uses of the variable and of the
measure. -/
theorem readExpression_lossless_row :
    let row := [Expr.node (.tableName "x") ⟨17, 18⟩,
      .node (.unary .negate (.node (.measure "M") ⟨20, 23⟩)) ⟨19, 23⟩]
    let expr := Expr.node (.bindings [("x", .node (.tableName "y") ⟨7, 8⟩)]
      (.node (.table [row]) ⟨15, 25⟩)) ⟨1, 25⟩
    let tokens := (Input.ofSource "=VAR x=y RETURN{(x,-[M])}").tokens
    let words := spoken (withoutEquals tokens)
    expr.payloads =
        [.variableName "x", .tableName "y", .tableName "x", .unary .negate, .measure "M"] ∧
      List.Forall₂ Token.Means words expr.words ∧
      List.Forall₂ Token.Means (withoutMarks words expr.words) expr.payloads ∧
      ∀ depth node, (depth, node) ∈ expr.subtrees 0 → node.ChildrenInPlace tokens := by
  intro row expr tokens words
  have accepted : readExpression "=VAR x=y RETURN{(x,-[M])}" = .ok expr := by
    cbv
  refine ⟨?_, readExpression_lossless accepted⟩
  have said : expr.words = [.mark .var, .variableName "x", .mark .equals, .tableName "y",
      .mark .result, .tableName "x", .unary .negate, .measure "M"] := by
    simp [expr, row, Expr.words_node, Form.map, Form.words, bindingWords]
  rw [Expr.payloads, said]
  rfl

end DaxScript
