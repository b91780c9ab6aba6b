import DaxScript.Proofs.Grammar.Parts
import DaxScript.Proofs.Grammar.Subtrees
import DaxScript.Proofs.Grammar.WholeExpression
import DaxScript.Proofs.Outline.OpeningWords

/-!
# The shape of what is read

Whatever is read as an expression has a form that can be read, and calls and binds names that can
be written (`Rule.operandRule_shaped`).  Two facts about the tokens are needed for this.  A name that is
no keyword is written as a word, which is known where nothing is wrong with the source
(`Piece.isNamed_of_mem_tokens`).  And a function may be called by one of five keywords, which is
checked in the table of these keywords (`Token.IsNamed.isCallName`).

The rows of a table need what is known of their elements: an element that is a tuple has several
values, so a row of a single value is neither a tuple nor a table (`Expr.Shaped.row`).
-/

set_option autoImplicit false

namespace DaxScript

open Production

/-! ## Names -/

/-- Functions are called, and variables are bound, by names that can be written. -/
def Form.Named {α : Type} : Form α → Prop
  | call name _ => isCallName name = true
  | bindings values _ => ∀ binding ∈ values, isName binding.1 = true
  | _ => True

namespace Token

/-- If the token is a name then it is a word and no keyword. -/
def IsNamed (token : Token) : Prop :=
  ∀ name, token.kind = .identifier name → isName name = true

/-- A function is called by a name or by one of five keywords. -/
theorem IsNamed.isCallName {token : Token} {name : String} (isNamed : token.IsNamed)
    (named : token.kind.functionName? = some name) : isCallName name = true := by
  cases kind : token.kind with
  | identifier word =>
    rw [kind] at named
    cases named
    rw [DaxScript.isCallName, isNamed name kind, Bool.true_or]
  | keyword word =>
    rw [kind] at named
    cases word <;> cases named <;> cbv
  | _ =>
    rw [kind] at named
    cases named

end Token

/-- Names in a source without faults are words and no keywords. -/
theorem Piece.isNamed_of_mem_tokens {position : Position} {chars : List Char} {token : Token}
    (sound : ∀ piece ∈ all chars, piece.fault? = none)
    (member : token ∈ tokens position (all chars)) : token.IsNamed := by
  intro name kind
  have noKeyword := (isSpelled_of_mem_tokens member).identifier name kind
  have written := isWritten_of_mem_tokens sound member
  generalize spelled : token.spelling.toList = spelling at written
  generalize said : token.kind = known at written
  rw [kind] at said
  cases written with
  | identifier isWord =>
    cases said
    rw [← spelled, String.ofList_toList, isName, noKeyword, spelled, isWord]
    rfl
  | @enclosed enclosure => cases enclosure <;> cases said
  | _ => cases said

/-! ## Nodes -/

/-- The root of an expression has a form that can be read, with names that can be written. -/
structure Expr.Shaped (expr : Expr) : Prop where
  wellShaped : expr.form.WellShaped
  named : expr.form.Named

/-- A row has a value.  If it has one only, this is no tuple and no table. -/
theorem Expr.Shaped.row {value : Expr} {row : List Expr} (shaped : value.Shaped)
    (isRow : value.row? = some row) :
    1 ≤ row.length ∧ ∀ single, row = [single] →
      (∀ values, single.form ≠ .tuple values) ∧ ∀ inner, single.form ≠ .table inner := by
  have wellShaped := shaped.wellShaped
  obtain ⟨form, span⟩ := value
  cases form with
  | tuple values =>
    cases isRow
    have several : 2 ≤ row.length := wellShaped
    refine ⟨Nat.le_of_succ_le several, fun single same => ?_⟩
    subst same
    exact absurd several (Nat.lt_irrefl 1)
  | table => cases isRow
  | _ =>
    cases isRow
    refine ⟨Nat.le_refl 1, fun single same => ?_⟩
    obtain rfl := List.singleton_inj.mp same
    exact ⟨(fun _ same => by cases same), (fun _ same => by cases same)⟩

namespace Rule

/-- An operand is shaped if the expressions inside are. -/
theorem Made.shaped {expr : Nat → Rule Expr} {used : List Token} {value : Expr}
    (made : Made expr used value) (isNamed : ∀ token ∈ used, token.IsNamed)
    (inside : ∀ level value, (expr level).From used value → value.Shaped) : value.Shaped := by
  cases made with
  | @leaf token form span stated =>
    cases kind : token.kind with
    | keyword word =>
      rw [kind] at stated
      cases word <;> cases stated <;> exact ⟨trivial, trivial⟩
    | _ =>
      rw [kind] at stated
      cases stated <;> exact ⟨trivial, trivial⟩
  | reference isTarget =>
    obtain ⟨form, span⟩ := value
    rcases isTarget with ⟨_, same⟩ | ⟨_, _, same⟩ <;> cases same <;> exact ⟨trivial, trivial⟩
  | calculate isTarget => exact ⟨isTarget, trivial⟩
  | call isToken named => exact ⟨trivial, (isNamed _ isToken).isCallName named⟩
  | unary => exact ⟨trivial, trivial⟩
  | bindings some parts =>
    refine ⟨some, fun binding member => ?_⟩
    obtain ⟨⟨token, isToken, named⟩, _⟩ := parts binding member
    exact isNamed token isToken _ named
  | group part =>
    obtain ⟨wellShaped, named⟩ := inside 0 _ part
    exact ⟨wellShaped, named⟩
  | tuple several => exact ⟨several, trivial⟩
  | @table rows span even parts =>
    have ofRow {row : List Expr} (member : row ∈ rows) :
        1 ≤ row.length ∧ ∀ single, row = [single] →
          (∀ values, single.form ≠ .tuple values) ∧ ∀ inner, single.form ≠ .table inner := by
      obtain ⟨element, isFrom, isRow⟩ := parts row member
      exact (inside 0 element isFrom).row isRow
    refine ⟨⟨?_, fun value member => (ofRow member).2 value rfl⟩, trivial⟩
    obtain ⟨width, same⟩ := even
    cases rows with
    | nil => exact ⟨1, Nat.le_refl 1, fun _ member => absurd member List.not_mem_nil⟩
    | cons row rows =>
      have first : row.length = width := same row (.head _)
      exact ⟨width, first ▸ (ofRow (.head _)).1, same⟩
  | dataTable some parts => exact ⟨⟨some, fun row member => (parts row member).1⟩, trivial⟩

/-- Climbing joins operators, which are shaped, to an operand. -/
theorem Expression.shaped {operand : Rule Expr}
    (ofOperand : ∀ ⦃used value next⦄, operand used value next →
      (∀ token ∈ used, token.IsNamed) → value.Shaped)
    {level : Nat} {used : List Token} {whole : Expr} {next : TokenKind}
    (reading : Expression operand level used whole next)
    (isNamed : ∀ token ∈ used, token.IsNamed) : whole.Shaped := by
  cases reading with
  | @intro first whole used later _ reading others =>
    have isFirst : first.Shaped :=
      ofOperand reading fun token member => isNamed token (List.mem_append_left later member)
    clear reading isNamed
    induction others with
    | done => exact isFirst
    | step _ _ _ _ _ _ ihOthers => exact ihOthers ⟨trivial, trivial⟩

/-- **Every operand has a shape that can be read.** -/
theorem operandRule_shaped {levels : Nat} {used : List Token} {value : Expr} {next : TokenKind}
    (reading : operandRule levels used value next) (isNamed : ∀ token ∈ used, token.IsNamed) :
    value.Shaped := by
  induction levels generalizing used value next with
  | zero => cases reading
  | succ levels ih =>
    refine (Operand.made reading).shaped isNamed fun level value isFrom => ?_
    obtain ⟨own, _, isOwn, reading⟩ := isFrom
    exact reading.shaped (fun _ _ _ => ih) fun token member => isNamed token (isOwn member)

end Rule

/-- **All nodes of an accepted expression are shaped.** -/
theorem shaped_of_mem_subtrees {source : String} {expr : Expr}
    (accepted : readExpression source = .ok expr) {depth depth' : Nat} {node : Expr}
    (member : (depth', node) ∈ expr.subtrees depth) : node.Shaped := by
  obtain ⟨read, sound⟩ := readExpression_ok_iff.mp accepted
  have whole := yields_expression_iff.mp (expressionOfTokens_ok_iff.mp read)
  obtain ⟨before, own, after, cut, reading⟩ :=
    whole.locates (Expr.subtree_of_mem_subtrees member)
  obtain ⟨equals, sameTokens⟩ :=
    exists_append_withoutEquals (Piece.tokens .start (Piece.all source.toList))
  apply reading.shaped fun _ _ _ => Rule.operandRule_shaped
  intro token isOwn
  apply Piece.isNamed_of_mem_tokens sound
  rw [sameTokens, cut]
  simp [isOwn]

end DaxScript
