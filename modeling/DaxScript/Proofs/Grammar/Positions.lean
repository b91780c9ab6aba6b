import DaxScript.Proofs.Grammar.Nesting
import DaxScript.Proofs.Outline.Turns

/-!
# Positions between commas

The commas of a list delimit its positions, apart from commas inside of parentheses and braces
(`positions`).  An expression stands in one position, whatever it is: every comma of it is enclosed
(`Rule.operandRule_standsWhole`).

Parentheses and braces are counted together here, as they are wherever a count of them decides
something (`isBalanced`).
-/

set_option autoImplicit false

namespace DaxScript

open Production TokenOutline

/-! ## Balanced tokens -/

/-- A token opens, closes or leaves everything as it is. -/
theorem isBalanced_cons_cases (kind : TokenKind) :
    (∀ depth rest, isBalanced depth (kind :: rest) = isBalanced (depth + 1) rest) ∨
      (∀ depth rest,
        isBalanced depth (kind :: rest) = (decide (0 < depth) && isBalanced (depth - 1) rest)) ∨
      ∀ depth rest, isBalanced depth (kind :: rest) = isBalanced depth rest := by
  cases kind with
  | symbol sign =>
    cases sign
    case leftParen | leftBrace => exact .inl fun _ _ => rfl
    case rightParen | rightBrace => exact .inr (.inl fun _ _ => rfl)
    all_goals exact .inr (.inr fun _ _ => rfl)
  | _ => exact .inr (.inr fun _ _ => rfl)

/-- Balanced tokens in front change nothing. -/
theorem isBalanced_append {first : List TokenKind} {opened : Nat}
    (balanced : isBalanced opened first = true) (depth : Nat) (second : List TokenKind) :
    isBalanced (opened + depth) (first ++ second) = isBalanced depth second := by
  induction first generalizing opened with
  | nil =>
    obtain rfl : opened = 0 := by simpa [isBalanced] using balanced
    rw [Nat.zero_add, List.nil_append]
  | cons kind first ih =>
    rw [List.cons_append]
    rcases isBalanced_cons_cases kind with opens | closes | plain
    · rw [opens] at balanced ⊢
      rw [Nat.add_right_comm]
      exact ih balanced
    · rw [closes] at balanced ⊢
      obtain ⟨positive, balanced⟩ := Bool.and_eq_true_iff.mp balanced
      have positive : 0 < opened := of_decide_eq_true positive
      rw [decide_eq_true (Nat.add_pos_left positive depth), Bool.true_and,
        Nat.sub_add_comm positive]
      exact ih balanced
    · rw [plain] at balanced ⊢
      exact ih balanced

/-- Tokens that close more than is open are not the front of balanced ones. -/
theorem isBalanced_append_eq_false {first : List TokenKind} {depth : Nat}
    (balanced : isBalanced (depth + 1) first = true) (second : List TokenKind) :
    isBalanced depth (first ++ second) = false := by
  induction first generalizing depth with
  | nil => cases balanced
  | cons kind first ih =>
    rw [List.cons_append]
    rcases isBalanced_cons_cases kind with opens | closes | plain
    · rw [opens] at balanced ⊢
      exact ih balanced
    · rw [closes] at balanced ⊢
      cases depth with
      | zero => rfl
      | succ depth => exact Bool.and_eq_false_iff.mpr (.inr (ih (Bool.and_eq_true_iff.mp balanced).2))
    · rw [plain] at balanced ⊢
      exact ih balanced

theorem isBalanced_of_isPlain {kind : TokenKind} (plain : isPlain kind = true) (depth : Nat)
    (rest : List TokenKind) : isBalanced depth (kind :: rest) = isBalanced depth rest := by
  cases kind with
  | symbol sign => cases sign <;> first | rfl | cases plain
  | _ => rfl

/-- Whether all parentheses and braces among some tokens are opened and closed there. -/
abbrev Balanced (tokens : List Token) : Prop :=
  isBalanced 0 (tokens.map (·.kind)) = true

theorem Balanced.append {first second : List Token} (front : Balanced first)
    (behind : Balanced second) : Balanced (first ++ second) := by
  rw [Balanced, List.map_append]
  exact (isBalanced_append front 0 _).trans behind

theorem Nested.balanced {tokens : List Token} (nested : Nested tokens) : Balanced tokens := by
  have enclosed {opening closing : Token} {inner : List Token} (opens : ∀ depth rest,
      isBalanced depth (opening.kind :: rest) = isBalanced (depth + 1) rest)
      (balanced : Balanced inner) (closes : isBalanced 1 [closing.kind] = true) :
      Balanced (opening :: (inner ++ [closing])) := by
    rw [Balanced, List.map_cons, List.map_append, opens]
    exact (isBalanced_append balanced 1 _).trans closes
  induction nested with
  | nil => rfl
  | plain plain => exact isBalanced_of_isPlain plain 0 []
  | append _ _ ihFront ihBehind => exact .append ihFront ihBehind
  | parenthesized opens _ closes ih =>
    exact enclosed (fun _ _ => by rw [opens]; rfl) ih (by rw [closes]; rfl)
  | braced opens _ closes ih =>
    exact enclosed (fun _ _ => by rw [opens]; rfl) ih (by rw [closes]; rfl)

/-! ## Positions -/

/-- The positions that commas delimit, given how many parentheses and braces are open at first. -/
def positions (depth : Nat) : List Token → List (List Token)
  | [] => [[]]
  | token :: rest =>
    if depth = 0 ∧ token.kind = .symbol .comma then [] :: positions 0 rest
    else (positions (Turn.depthAfter token.kind depth) rest).modifyHead (token :: ·)

theorem positions_ne_nil (depth : Nat) (tokens : List Token) : positions depth tokens ≠ [] := by
  induction tokens generalizing depth with
  | nil => exact List.cons_ne_nil _ _
  | cons token rest ih =>
    rw [positions]
    split
    · exact List.cons_ne_nil _ _
    · simpa using ih _

theorem positions_comma {comma : Token} (sign : comma.kind = .symbol .comma)
    (rest : List Token) : positions 0 (comma :: rest) = [] :: positions 0 rest := by
  rw [positions, if_pos ⟨rfl, sign⟩]

theorem positions_cons {depth : Nat} {token : Token}
    (inside : depth ≠ 0 ∨ token.kind ≠ .symbol .comma) (rest : List Token) :
    positions depth (token :: rest) =
      (positions (Turn.depthAfter token.kind depth) rest).modifyHead (token :: ·) := by
  rw [positions, if_neg fun both => inside.elim (· both.1) (· both.2)]

theorem depthAfter_of_isPlain {kind : TokenKind} (plain : isPlain kind = true) (depth : Nat) :
    Turn.depthAfter kind depth = depth := by
  cases kind with
  | symbol sign => cases sign <;> first | rfl | cases plain
  | _ => rfl

/-- Some tokens stand in one position together. -/
def StandsWhole (depth : Nat) (tokens : List Token) : Prop :=
  ∀ rest, positions depth (tokens ++ rest) = (positions depth rest).modifyHead (tokens ++ ·)

namespace StandsWhole

variable {depth : Nat} {tokens : List Token} {token : Token}

theorem nil : StandsWhole depth [] :=
  fun rest => (congrFun List.modifyHead_id (positions depth rest)).symm

theorem append {more : List Token} (first : StandsWhole depth tokens)
    (second : StandsWhole depth more) : StandsWhole depth (tokens ++ more) := by
  intro rest
  rw [List.append_assoc, first, second, List.modifyHead_modifyHead]
  exact congrArg (List.modifyHead · _) (funext fun _ => (List.append_assoc ..).symm)

theorem single (plain : isPlain token.kind = true)
    (inside : depth ≠ 0 ∨ token.kind ≠ .symbol .comma) : StandsWhole depth [token] := by
  intro rest
  rw [List.singleton_append, positions_cons inside, depthAfter_of_isPlain plain]
  rfl

theorem cons (plain : isPlain token.kind = true) (noComma : token.kind ≠ .symbol .comma)
    (others : StandsWhole depth tokens) : StandsWhole depth (token :: tokens) :=
  append (single plain (.inr noComma)) others

/-- Commas between signs that enclose them delimit nothing. -/
theorem enclosed {opening closing : Token} (opens : Turn.depthAfter opening.kind depth = depth + 1)
    (inner : StandsWhole (depth + 1) tokens)
    (closes : Turn.depthAfter closing.kind (depth + 1) = depth)
    (noComma : opening.kind ≠ .symbol .comma) :
    StandsWhole depth (opening :: (tokens ++ [closing])) := by
  intro rest
  rw [List.cons_append, List.append_assoc, positions_cons (.inr noComma), opens, inner,
    List.singleton_append, positions_cons (.inl (Nat.succ_ne_zero depth)), closes,
    List.modifyHead_modifyHead, List.modifyHead_modifyHead]
  exact congrArg (List.modifyHead · _) (funext fun _ => by simp)

end StandsWhole

/-- What is nested stands in one position between signs that enclose it. -/
theorem Nested.standsWhole {tokens : List Token} (nested : Nested tokens) (depth : Nat) :
    StandsWhole (depth + 1) tokens := by
  induction nested generalizing depth with
  | nil => exact .nil
  | plain plain => exact .single plain (.inl (Nat.succ_ne_zero depth))
  | append _ _ ihFront ihBehind => exact .append (ihFront depth) (ihBehind depth)
  | parenthesized opens _ closes ih =>
    exact .enclosed (by rw [opens]; rfl) (ih _) (by rw [closes]; rfl) (by simp [opens])
  | braced opens _ closes ih =>
    exact .enclosed (by rw [opens]; rfl) (ih _) (by rw [closes]; rfl) (by simp [opens])

theorem StandsWhole.parenthesized {opening closing : Token} {tokens : List Token}
    (opens : opening.kind = .symbol .leftParen) (nested : Nested tokens)
    (closes : closing.kind = .symbol .rightParen) (depth : Nat) :
    StandsWhole depth (opening :: (tokens ++ [closing])) :=
  .enclosed (by rw [opens]; rfl) (nested.standsWhole depth) (by rw [closes]; rfl) (by simp [opens])

theorem StandsWhole.braced {opening closing : Token} {tokens : List Token}
    (opens : opening.kind = .symbol .leftBrace) (nested : Nested tokens)
    (closes : closing.kind = .symbol .rightBrace) (depth : Nat) :
    StandsWhole depth (opening :: (tokens ++ [closing])) :=
  .enclosed (by rw [opens]; rfl) (nested.standsWhole depth) (by rw [closes]; rfl) (by simp [opens])

/-- A token that can be something that neither a sign of nesting nor a comma can be. -/
theorem StandsWhole.cons_of_can (can : TokenKind → Prop)
    (noSign : ∀ sign ∈ [Symbol.leftParen, .rightParen, .leftBrace, .rightBrace, .semicolon, .comma],
      ¬can (.symbol sign))
    {depth : Nat} {token : Token} {tokens : List Token} (holds : can token.kind)
    (others : StandsWhole depth tokens) : StandsWhole depth (token :: tokens) := by
  have plain := isPlain_of_can can (fun sign member => noSign sign (by
    simp only [List.mem_cons] at member ⊢
    tauto)) holds
  refine .cons plain (fun comma => ?_) others
  rw [comma] at holds
  exact noSign .comma (by decide) holds

namespace Rule

/-- Whatever a rule reads stands in one position. -/
def StandsWhole {α : Type} (rule : Rule α) : Prop :=
  ∀ ⦃used : List Token⦄ ⦃value : α⦄ ⦃next : TokenKind⦄, rule used value next →
    DaxScript.StandsWhole 0 used

section Operands

variable {expr : Rule Expr} (nests : expr.Nests)
include nests

theorem Arguments.standsWhole : (Arguments expr).StandsWhole := by
  intro used values next reading
  cases reading with
  | intro opens items closes => exact .parenthesized opens (SeparatedUnless.nests nests items) closes 0

theorem Filters.standsWhole (target : Expr) : (Filters expr target).StandsWhole := by
  intro used value next reading
  cases reading with
  | none => exact .nil
  | some filters => exact Arguments.standsWhole nests filters

end Operands

theorem Binding.standsWhole {expr : Rule Expr} (whole : expr.StandsWhole) :
    (Binding expr).StandsWhole := by
  intro used value next reading
  cases reading with
  | intro opens named sign reading =>
    exact .cons (isPlain_of_keyword opens) (by simp [opens]) (.cons (by rw [named]; rfl)
      (by simp [named]) (.cons (by rw [sign]; rfl) (by simp [sign]) (whole reading)))

theorem Repeated.standsWhole {α : Type} {item : Rule α} (whole : item.StandsWhole)
    {continues : TokenKind → Bool} : (Repeated continues item).StandsWhole := by
  intro used values next reading
  induction reading with
  | done => exact .nil
  | more _ reading _ ih => exact (whole reading).append ih

theorem Operand.standsWhole {expr : Nat → Rule Expr} (nests : ∀ level, (expr level).Nests)
    (whole : ∀ level, (expr level).StandsWhole) : (Operand expr).StandsWhole := by
  intro used value next reading
  cases reading with
  | leaf stated =>
    exact .cons_of_can (·.leaf? = some _) (by simp [TokenKind.leaf?]) stated .nil
  | measure named filters =>
    exact .cons (by rw [named]; rfl) (by simp [named]) (Filters.standsWhole (nests 0) _ filters)
  | @column table column tableName columnName used value _ tableNamed columnNamed filters =>
    have noComma : table.kind ≠ .symbol .comma := by
      intro comma
      simp [Token.tableName?, comma] at tableNamed
    exact .cons (isPlain_of_tableName? tableNamed) noComma (.cons (by rw [columnNamed]; rfl)
      (by simp [columnNamed]) (Filters.standsWhole (nests 0) _ filters))
  | call named arguments =>
    exact .cons_of_can (·.functionName? = some _) (by simp [TokenKind.functionName?]) named
      (Arguments.standsWhole (nests 0) arguments)
  | unary sign operand =>
    exact .cons_of_can (UnaryOperator.ofKind? · = some _) (by simp [UnaryOperator.ofKind?]) sign
      (whole _ operand)
  | bindings opens items separates reading =>
    have bound := Repeated.standsWhole (Binding.standsWhole (whole 0)) items
    exact bound.append (.cons (isPlain_of_keyword separates) (by simp [separates])
      (whole 0 reading))
  | group opens reading closes => exact .parenthesized opens (nests 0 reading) closes 0
  | tuple opens items closes =>
    exact .parenthesized opens (Separated.nests (nests 0) items) closes 0
  | table opens items closes => exact .braced opens (TableRows.nests (nests 0) items) closes 0
  | @dataTable word outer opening closing last used later columns rows _ named opens heads _
      opensRows items closesRows closes =>
    have data : Nested (opening :: (later ++ [closing])) :=
      .braced opensRows (SeparatedUnless.nests (DataRow.nests (nests 0) _) items) closesRows
    have inner := (Repeated.nests DataColumn.nests heads).append data
    have whole := DaxScript.StandsWhole.cons (isPlain_of_keyword named) (by simp [named])
      (.parenthesized opens inner closes 0)
    simpa using whole

theorem Climbing.standsWhole {operand : Rule Expr} (whole : operand.StandsWhole) (level : Nat)
    (left : Expr) : (Climbing operand level left).StandsWhole := by
  intro used value next reading
  induction reading with
  | done => exact .nil
  | step joins _ reading _ _ ihTighter ihOthers =>
    exact .cons_of_can (BinaryOperator.ofKind? · = some _) (by simp [BinaryOperator.ofKind?]) joins
      ((whole reading).append (ihTighter.append ihOthers))

theorem Expression.standsWhole {operand : Rule Expr} (whole : operand.StandsWhole) (level : Nat) :
    (Expression operand level).StandsWhole := by
  intro used value next reading
  cases reading with
  | intro reading others => exact (whole reading).append (Climbing.standsWhole whole level _ others)

/-- **No comma of an expression delimits a position.** -/
theorem operandRule_standsWhole (levels : Nat) : (operandRule levels).StandsWhole := by
  induction levels with
  | zero =>
    intro _ _ _ reading
    cases reading
  | succ levels ih =>
    exact Operand.standsWhole (fun level => Expression.nests (operandRule_nests levels) level)
      fun level => Expression.standsWhole ih level

end Rule

end DaxScript
