import DaxScript.Proofs.Grammar.PrintedOperand

/-!
# Operands that open operands

A parenthesis, a call and an operator in front of an operand each put an operand around another one
(`Opener`).  Any number of them may stand in a row, in any order, around an operand that opens
nothing (`Opener.around`).

Each of them takes one level.  With more levels than there are openers the whole is read
(`Opener.exists_reading`).  With as many levels as there are openers all of them are read, and
whatever stands behind them is refused before it is looked at (`Opener.climb_refused`), with one
exception: the parentheses of a call may be empty, so a parenthesis may close them.
-/

set_option autoImplicit false

namespace DaxScript

open Piece Production

/-- The beginning of an operand that contains another one. -/
inductive Opener where
  | group
  | call
  | unary (operator : UnaryOperator)
  deriving DecidableEq

namespace Opener

/-! ## Texts and pieces -/

/-- What is written in front of the operand inside. -/
def opens : Opener → String
  | group => "("
  | call => "ABS("
  | unary .negate => "- "
  | unary .plus => "+ "
  | unary .logicalNot => "NOT "

/-- What is written behind the operand inside. -/
def closes : Opener → String
  | group | call => ")"
  | unary _ => ""

/-- The pieces of what is written in front. -/
def opening : Opener → List Piece
  | group => [ofSymbol .leftParen]
  | call => [ofWord "ABS".toList, ofSymbol .leftParen]
  | unary operator => [operator.piece, space]

/-- The pieces of what is written behind. -/
def closing : Opener → List Piece
  | group | call => [ofSymbol .rightParen]
  | unary _ => []

/-- The operand in the middle. -/
def one : Piece :=
  token (.number (.ofRatio 1 1)) ['1'] none

/-- An operand in several others. -/
def around : List Opener → List Piece
  | [] => [one]
  | opener :: openers => opener.opening ++ (around openers ++ opener.closing)

theorem text_opening (opener : Opener) : text opener.opening = opener.opens.toList := by
  cases opener with
  | unary operator => cases operator <;> decide
  | _ => decide

theorem text_closing (opener : Opener) : text opener.closing = opener.closes.toList := by
  cases opener <;> rfl

/-- The first of the openers stand in front, and close behind all that the others are around. -/
theorem around_append (front behind : List Opener) :
    around (front ++ behind) =
      front.flatMap opening ++ (around behind ++ front.reverse.flatMap closing) := by
  induction front with
  | nil => simp
  | cons opener front ih => simp [around, ih]

theorem text_flatMap_opening (openers : List Opener) :
    text (openers.flatMap opening) = openers.flatMap fun opener => opener.opens.toList := by
  rw [text, List.flatMap_assoc]
  exact congrArg (openers.flatMap ·) (funext text_opening)

theorem text_around (openers : List Opener) :
    text (around openers) = (openers.flatMap fun opener => opener.opens.toList) ++
      '1' :: openers.reverse.flatMap fun opener => opener.closes.toList := by
  have split := around_append openers []
  have behind : text (openers.reverse.flatMap closing) =
      openers.reverse.flatMap fun opener => opener.closes.toList := by
    rw [text, List.flatMap_assoc]
    exact congrArg (openers.reverse.flatMap ·) (funext text_closing)
  rw [List.append_nil] at split
  rw [split, text_append, text_append, text_flatMap_opening, behind]
  rfl

theorem tidy_around (openers : List Opener) : Tidy (around openers) := by
  induction openers with
  | nil => exact tidy_number (by decide +kernel)
  | cons opener openers ih =>
    cases opener with
    | group => exact ih.parenthesized
    | call =>
      have isWord : isWord "ABS".toList = true := by decide
      have whole : Tidy ([ofWord "ABS".toList] ++ parenthesized (around openers)) :=
        .append (tidy_ofWord isWord) ih.parenthesized (separated_parenthesized _)
      exact whole
    | unary operator =>
      have whole : Tidy ([operator.piece] ++ space :: around openers) :=
        .append operator.tidy_piece ih.behindSpace (separated_space _)
      rw [around, closing, List.append_nil]
      exact whole

/-! ## Tokens -/

theorem tokens_unary (operator : UnaryOperator) (position : Position) :
    ∃ sign : Token, tokens position (unary operator).opening = [sign] ∧
      UnaryOperator.ofKind? sign.kind = some operator ∧ sign.position = position := by
  cases operator <;> exact ⟨_, rfl, rfl, rfl⟩

theorem tokens_call (position : Position) :
    ∃ word sign : Token, tokens position call.opening = [word, sign] ∧
      word.kind = .identifier "ABS" ∧ sign.kind = .symbol .leftParen ∧
      word.position = position := by
  have written : ofWord "ABS".toList = token (.identifier "ABS") "ABS".toList none :=
    ofWord_name (by decide)
  simp only [opening, written, tokens_identifier, tokens_ofSymbol]
  exact ⟨_, _, rfl, rfl, rfl, rfl⟩

/-- An opener begins where its text begins, and not with a closing sign. -/
theorem exists_first_opening (opener : Opener) (position : Position) :
    ∃ first later, tokens position opener.opening = first :: later ∧
      first.kind ≠ .symbol .rightParen ∧ first.position = position := by
  cases opener with
  | group => exact ⟨_, _, rfl, by simp [Token.place], rfl⟩
  | call =>
    obtain ⟨word, sign, same, named, _, placed⟩ := tokens_call position
    exact ⟨word, [sign], same, by simp [named], placed⟩
  | unary operator =>
    obtain ⟨sign, same, isSign, placed⟩ := tokens_unary operator position
    refine ⟨sign, [], same, fun closes => ?_, placed⟩
    rw [closes] at isSign
    cases isSign

/-- So does what openers are around. -/
theorem exists_first_around (openers : List Opener) (more : List Piece) (position : Position) :
    ∃ first later, tokens position (around openers ++ more) = first :: later ∧
      first.kind ≠ .symbol .rightParen ∧ first.position = position := by
  cases openers with
  | nil => exact ⟨_, _, rfl, by simp [Token.place], rfl⟩
  | cons opener openers =>
    obtain ⟨first, later, same, noClose, placed⟩ := opener.exists_first_opening position
    rw [around, List.append_assoc, tokens_append, same]
    exact ⟨first, _, rfl, noClose, placed⟩

/-- No token of operands in operands ends a statement. -/
theorem goesOn {openers : List Opener} {position : Position} :
    ∀ token ∈ tokens position (around openers), endsStatement token.kind = false := by
  induction openers generalizing position with
  | nil =>
    intro token member
    cases List.mem_singleton.mp member
    rfl
  | cons opener openers ih =>
    intro token member
    rw [around, tokens_append, tokens_append] at member
    rcases List.mem_append.mp member with first | later
    · cases opener with
      | group =>
        cases List.mem_singleton.mp first
        rfl
      | call =>
        obtain ⟨word, sign, same, named, opens, _⟩ := tokens_call position
        rw [same, List.mem_cons, List.mem_singleton] at first
        rcases first with rfl | rfl
        · rw [named]
          rfl
        · rw [opens]
          rfl
      | unary operator => cases operator <;> cases List.mem_singleton.mp first <;> rfl
    · rcases List.mem_append.mp later with inside | last
      · exact ih token inside
      · cases opener with
        | unary => cases last
        | _ =>
          cases List.mem_singleton.mp last
          rfl

/-! ## Reading -/

/-- The openers take the levels, and one more is left for what they are around. -/
theorem exists_operand (openers : List Opener) {levels : Nat} (few : openers.length ≤ levels)
    (position : Position) {next : TokenKind} (noOperator : BinaryOperator.ofKind? next = none) :
    ∃ value, Rule.operandRule (levels + 1) (tokens position (around openers)) value next := by
  induction openers generalizing levels position next with
  | nil => exact ⟨_, .leaf rfl rfl⟩
  | cons opener openers ih =>
    obtain ⟨levels, rfl⟩ := Nat.exists_eq_add_one_of_ne_zero (Nat.ne_zero_of_lt few)
    replace few : openers.length ≤ levels := Nat.le_of_succ_le_succ few
    have closes : BinaryOperator.ofKind? (.symbol .rightParen) = none := rfl
    rw [around, tokens_append]
    generalize position.advanceAll (text opener.opening) = inner
    cases opener with
    | group =>
      obtain ⟨value, reading⟩ := ih few inner closes
      rw [closing, tokens_append]
      exact ⟨_, .group rfl (.of_operand reading closes) rfl⟩
    | call =>
      obtain ⟨value, reading⟩ := ih few inner closes
      obtain ⟨word, sign, same, named, opens, _⟩ := tokens_call position
      obtain ⟨first, rest, begins, noClose, _⟩ := exists_first_around openers [] inner
      rw [List.append_nil] at begins
      have arguments : Rule.Arguments (Rule.Expression (Rule.operandRule (levels + 1)) 0)
          (sign :: (tokens inner (around openers) ++ [Token.place (.symbol .rightParen)
            (inner.advanceAll (text (around openers))) [')']])) ([value], _) next :=
        .intro opens (.some (by rw [begins]; exact noClose)
          (.single (.of_operand reading closes) rfl)) rfl
      have function : word.kind.functionName? = some "ABS" := by rw [named]; rfl
      rw [same, closing, tokens_append]
      exact ⟨_, .call function arguments⟩
    | unary operator =>
      obtain ⟨value, reading⟩ := ih few inner noOperator
      obtain ⟨sign, same, isSign, _⟩ := tokens_unary operator position
      rw [same, closing, List.append_nil]
      exact ⟨_, .unary isSign (.of_operand reading noOperator)⟩

/-- **With more levels than openers everything is read**, where no operator follows. -/
theorem exists_reading (openers : List Opener) {levels : Nat} (few : openers.length < levels)
    (level : Nat) (position : Position) {next : TokenKind}
    (noOperator : BinaryOperator.ofKind? next = none) :
    ∃ value, Rule.Expression (Rule.operandRule levels) level (tokens position (around openers))
      value next := by
  obtain ⟨levels, rfl⟩ := Nat.exists_eq_add_one_of_ne_zero (Nat.ne_zero_of_lt few)
  obtain ⟨value, reading⟩ :=
    exists_operand openers (Nat.le_of_lt_succ few) position noOperator
  exact ⟨value, .of_operand reading noOperator⟩

/-- An operand is refused for what is refused inside. -/
theorem operandOf_refused (opener : Opener) {expr : ExprProduction} {refusal : Refusal}
    {rest : List Token} (noClose : nextKind rest ≠ .symbol .rightParen)
    (refused : ∀ level, expr level rest = .error refusal) (position : Position) :
    operandOf expr (tokens position opener.opening ++ rest) = .error refusal := by
  have items : separated (expr 0) rest = .error refusal := by
    rw [separated, refused]
    rfl
  cases opener with
  | group =>
    -- The parenthesis is read, and then the items.
    change (separated (expr 0) rest >>= _) = _
    rw [items]
    rfl
  | call =>
    obtain ⟨word, sign, same, named, opens, _⟩ := tokens_call position
    have function : word.kind.functionName? = some "ABS" := by
      rw [named]
      rfl
    have some : ¬isSymbol .rightParen (nextKind rest) = true := by
      rwa [isSymbol_iff]
    have inner : Production.arguments expr (sign :: rest) = .error refusal := by
      simp only [arguments, symbol, opens, if_true]
      change (separatedUnless .rightParen (expr 0) rest >>= _) = _
      rw [separatedUnless, if_neg some, weaken, items]
      rfl
    have isCall : operandOf expr (word :: sign :: rest) = called expr "ABS" word (sign :: rest) :=
      operandOf_of_call function opens
    rw [same, List.cons_append, List.singleton_append, isCall, called, inner]
    rfl
  | unary operator =>
    obtain ⟨sign, same, isSign, _⟩ := tokens_unary operator position
    rw [same, List.singleton_append, operandOf_of_unary isSign, signed, refused]
    rfl

/-- **With as many levels as openers what stands behind them is refused.** -/
theorem climb_refused (openers : List Opener) (level : Nat) (position : Position)
    {rest : List Piece}
    (noClose : ∀ position, nextKind (tokens position rest) ≠ .symbol .rightParen) :
    climb (operand openers.length) level (tokens position (openers.flatMap opening ++ rest)) =
      .error (refuse (tokens (position.advanceAll (text (openers.flatMap opening))) rest)
        (.nestingTooDeep maxNesting)) := by
  induction openers generalizing level position with
  | nil => rfl
  | cons opener openers ih =>
    let inner := position.advanceAll (text opener.opening)
    have noCloseInner :
        nextKind (tokens inner (openers.flatMap opening ++ rest)) ≠ .symbol .rightParen := by
      cases openers with
      | nil => exact noClose inner
      | cons next openers =>
        obtain ⟨first, later, same, noClose, _⟩ := next.exists_first_opening inner
        rw [List.flatMap_cons, List.append_assoc, tokens_append, same]
        exact noClose
    have refused := opener.operandOf_refused noCloseInner (fun level => ih level inner) position
    rw [← tokens_append, ← List.append_assoc, ← List.flatMap_cons, ← Position.advanceAll_append,
      ← text_append, ← List.flatMap_cons] at refused
    change (operandOf (climb (operand openers.length))
      (tokens position ((opener :: openers).flatMap opening ++ rest)) >>= _) = _
    rw [refused]
    rfl

end Opener

end DaxScript
