import DaxScript.Proofs.Grammar.OperatorTree
import DaxScript.Proofs.Grammar.WholeExpression

/-!
# Precedence climbing groups operators by their levels

Numbers with operators between and in front of them, written with white space between the items,
are read as a tree in which the operators are grouped by their levels, and there is only one such
tree (`readExpression_chain`).

Climbing reads every grouped tree: what is written behind a tree that is not open to it may be
climbed to afterwards (`OperatorTree.ReadAs`, `OperatorTree.exists_readAs`).  The items of a chain
can be grouped (`Chain.exists_grouped`), so they are read as that tree, and since reading has one
result no other tree groups them.
-/

set_option autoImplicit false

namespace DaxScript

open Production

/-! ## How items are written -/

namespace UnaryOperator

def spellings : UnaryOperator → List String
  | negate => ["-"]
  | plus => ["+"]
  | logicalNot => ["NOT"]

end UnaryOperator

namespace BinaryOperator

def spellings : BinaryOperator → List String
  | logicalOr => ["OR", "||"]
  | logicalAnd => ["AND", "&&"]
  | equal => ["="]
  | notEqual => ["<>"]
  | less => ["<"]
  | lessEqual => ["<="]
  | greater => [">"]
  | greaterEqual => [">="]
  | within => ["IN"]
  | concat => ["&"]
  | add => ["+"]
  | subtract => ["-"]
  | multiply => ["*"]
  | divide => ["/"]

end BinaryOperator

namespace Item

/-- Whether characters are an item as it is written.  Words may be in any letter case. -/
def IsWritten : Item → List Char → Prop
  | number value, chars => Numeral.value? chars = some value
  | sign operator, chars =>
    ∃ spelling ∈ operator.spellings, sameIgnoringCase spelling (String.ofList chars) = true
  | joint operator, chars =>
    ∃ spelling ∈ operator.spellings, sameIgnoringCase spelling (String.ofList chars) = true

/-- Items in their order, with white space between them. -/
inductive WrittenApart : List Item → List Char → Prop where
  | nil {gap : List Char} (white : ∀ char ∈ gap, Unicode.isWhiteSpace char = true) :
      WrittenApart [] gap
  | cons {item : Item} {items : List Item} {gap spelling later : List Char}
      (white : ∀ char ∈ gap, Unicode.isWhiteSpace char = true)
      (written : item.IsWritten spelling)
      (apart : ∀ char ∈ later.head?, Unicode.isWhiteSpace char = true)
      (others : WrittenApart items later) :
      WrittenApart (item :: items) (gap ++ (spelling ++ later))

/-- Whether a token of a kind stands for an item. -/
def IsKind : Item → TokenKind → Prop
  | number value, kind => kind = .number value
  | sign operator, kind => UnaryOperator.ofKind? kind = some operator
  | joint operator, kind => BinaryOperator.ofKind? kind = some operator

end Item

/-! ## Items become tokens -/

namespace Item

/-- A sign or a keyword that stands for an item is a token for it in front of separators. -/
theorem exists_kind_of_spelling {item : Item} {chars : List Char} {spelling : String}
    (same : sameIgnoringCase spelling (String.ofList chars) = true)
    (stands : (∃ sign : Symbol, spelling = sign.spelling ∧ item.IsKind (.symbol sign)) ∨
      ∃ word : Keyword, spelling = word.name ∧ item.IsKind (.keyword word)) :
    ∃ kind, item.IsKind kind ∧ kind.isTrivia = false ∧
      ∀ {rest : List Char}, Separated rest → (Piece.token kind chars none).Fits rest := by
  rcases stands with ⟨sign, rfl, isKind⟩ | ⟨word, rfl, isKind⟩
  · obtain rfl := Symbol.eq_of_same same
    exact ⟨.symbol sign, isKind, rfl, Piece.fits_symbol sign⟩
  · exact ⟨.keyword word, isKind, rfl, Piece.fits_keyword same⟩

/-- **An item is written as a token that stands for it.** -/
theorem exists_kind {item : Item} {chars : List Char} (written : item.IsWritten chars) :
    ∃ kind, item.IsKind kind ∧ kind.isTrivia = false ∧
      ∀ {rest : List Char}, Separated rest → (Piece.token kind chars none).Fits rest := by
  cases item with
  | number value => exact ⟨.number value, rfl, rfl, Piece.fits_numeral written⟩
  | sign operator =>
    obtain ⟨spelling, isSpelling, same⟩ := written
    refine exists_kind_of_spelling same ?_
    cases operator <;> obtain rfl := List.mem_singleton.mp isSpelling
    · exact .inl ⟨.minus, rfl, rfl⟩
    · exact .inl ⟨.plus, rfl, rfl⟩
    · exact .inr ⟨.logicalNot, rfl, rfl⟩
  | joint operator =>
    obtain ⟨spelling, isSpelling, same⟩ := written
    refine exists_kind_of_spelling same ?_
    cases operator
    case logicalOr =>
      rcases List.mem_pair.mp isSpelling with rfl | rfl
      · exact .inr ⟨.logicalOr, rfl, rfl⟩
      · exact .inl ⟨.doubleBar, rfl, rfl⟩
    case logicalAnd =>
      rcases List.mem_pair.mp isSpelling with rfl | rfl
      · exact .inr ⟨.logicalAnd, rfl, rfl⟩
      · exact .inl ⟨.doubleAmpersand, rfl, rfl⟩
    case within =>
      obtain rfl := List.mem_singleton.mp isSpelling
      exact .inr ⟨.within, rfl, rfl⟩
    all_goals obtain rfl := List.mem_singleton.mp isSpelling
    · exact .inl ⟨.plus, rfl, rfl⟩
    · exact .inl ⟨.minus, rfl, rfl⟩
    · exact .inl ⟨.star, rfl, rfl⟩
    · exact .inl ⟨.slash, rfl, rfl⟩
    · exact .inl ⟨.ampersand, rfl, rfl⟩
    · exact .inl ⟨.equal, rfl, rfl⟩
    · exact .inl ⟨.notEqual, rfl, rfl⟩
    · exact .inl ⟨.less, rfl, rfl⟩
    · exact .inl ⟨.lessEqual, rfl, rfl⟩
    · exact .inl ⟨.greater, rfl, rfl⟩
    · exact .inl ⟨.greaterEqual, rfl, rfl⟩

end Item

/-- Tokens that stand for items, one for one. -/
abbrev StandFor : List Token → List Item → Prop :=
  List.Forall₂ fun token item => item.IsKind token.kind

theorem StandFor.exists_append {tokens : List Token} {first second : List Item}
    (stand : StandFor tokens (first ++ second)) :
    ∃ front behind, tokens = front ++ behind ∧ StandFor front first ∧ StandFor behind second :=
  ⟨_, _, (List.take_append_drop first.length tokens).symm,
    List.forall₂_take_append tokens first second stand,
    List.forall₂_drop_append tokens first second stand⟩

/-- White space makes pieces that are no tokens. -/
theorem exists_pieces_of_gap {gap rest : List Char}
    (white : ∀ char ∈ gap, Unicode.isWhiteSpace char = true) :
    ∃ pieces, Piece.text pieces = gap ∧ Piece.FitTogether rest pieces ∧
      (∀ piece ∈ pieces, piece.fault? = none) ∧
      ∀ position, Piece.tokens position pieces = [] := by
  induction gap with
  | nil => exact ⟨[], rfl, trivial, by simp, fun _ => rfl⟩
  | cons char gap ih =>
    obtain ⟨pieces, rfl, together, sound, silent⟩ := ih fun char member => white char (.tail _ member)
    refine ⟨.blank char :: pieces, rfl, ⟨Piece.fits_blank (white char (.head _)) _, together⟩,
      List.forall_mem_cons.mpr ⟨rfl, sound⟩, fun position => ?_⟩
    rw [Piece.tokens, silent]
    rfl

/-- **Items that are written apart are cut into tokens that stand for them.** -/
theorem Item.WrittenApart.exists_pieces {items : List Item} {chars : List Char}
    (written : WrittenApart items chars) :
    ∃ pieces, Piece.text pieces = chars ∧ Piece.FitTogether [] pieces ∧
      (∀ piece ∈ pieces, piece.fault? = none) ∧
      ∀ position, StandFor (Piece.tokens position pieces) items := by
  induction written with
  | nil white =>
    obtain ⟨pieces, same, together, sound, silent⟩ := exists_pieces_of_gap white
    refine ⟨pieces, same, together, sound, fun position => ?_⟩
    rw [silent]
    exact .nil
  | @cons item items gap spelling later white written apart _ ih =>
    obtain ⟨behind, rfl, together, sound, stand⟩ := ih
    obtain ⟨kind, isKind, meaning, fits⟩ := exists_kind written
    have separated : Separated (Piece.text behind) := fun char isFirst =>
      separates_of_isWhiteSpace (apart char isFirst)
    have fitsBehind : (Piece.token kind spelling none).Fits (Piece.text behind ++ []) := by
      rw [List.append_nil]
      exact fits separated
    obtain ⟨front, rfl, frontTogether, frontSound, silent⟩ := exists_pieces_of_gap white
    refine ⟨front ++ .token kind spelling none :: behind, ?_, ?_, ?_, fun position => ?_⟩
    · rw [Piece.text_append, Piece.text_cons]
      rfl
    · exact Piece.FitTogether.append frontTogether ⟨fitsBehind, together⟩
    · intro piece member
      rcases List.mem_append.mp member with inFront | isBehind
      · exact frontSound piece inFront
      · rcases List.mem_cons.mp isBehind with rfl | isBehind
        · rfl
        · exact sound piece isBehind
    · have own : (Piece.token kind spelling none).ownTokens
          (position.advanceAll (Piece.text front)) =
            [Token.place kind (position.advanceAll (Piece.text front)) spelling] := by
        simp [Piece.ownTokens, Piece.token?, Token.place, meaning]
      rw [Piece.tokens_append, silent, List.nil_append, Piece.tokens, own]
      exact .cons isKind (stand _)

/-! ## Trees are read -/

/-- Whether an expression is a tree of numbers and operators, wherever its parts stand. -/
inductive Expr.Shows : Expr → OperatorTree → Prop where
  | number {value : Binary64} {span : Span} : Shows (.node (.number value) span) (.number value)
  | unary {operator : UnaryOperator} {operand : Expr} {tree : OperatorTree} {span : Span}
      (inner : Shows operand tree) :
      Shows (.node (.unary operator operand) span) (.unary operator tree)
  | binary {operator : BinaryOperator} {left right : Expr} {leftTree rightTree : OperatorTree}
      {span : Span} (isLeft : Shows left leftTree) (isRight : Shows right rightTree) :
      Shows (.node (.binary operator left right) span) (.binary operator leftTree rightTree)

/-- An expression shows one tree only. -/
theorem Expr.Shows.unique {expr : Expr} {tree other : OperatorTree} (first : expr.Shows tree)
    (second : expr.Shows other) : tree = other := by
  induction first generalizing other with
  | number =>
    cases second
    rfl
  | unary _ ih =>
    cases second with
    | unary inner => rw [ih inner]
  | binary _ _ ihLeft ihRight =>
    cases second with
    | binary isLeft isRight => rw [ihLeft isLeft, ihRight isRight]

namespace OperatorTree

open Rule

/-- Some tokens are read as a tree, and whatever may be climbed to from it is climbed to afterwards.
What stands behind the tree must not be an operator that the tree is open to. -/
def ReadAs (tree : OperatorTree) (tokens : List Token) (levels : Nat) (value : Expr) : Prop :=
  ∀ ⦃level : Nat⦄ ⦃later : List Token⦄ ⦃whole : Expr⦄ ⦃next : TokenKind⦄,
    (∀ joint, BinaryOperator.ofKind? (kindAfter later next) = some joint →
      tree.openTo joint.rank = false) →
    (∀ own ∈ tree.level?, level ≤ own) →
    Climbing (operandRule levels) level value later whole next →
    Expression (operandRule levels) level (tokens ++ later) whole next

namespace ReadAs

variable {levels : Nat}

theorem number {value : Binary64} {token : Token} (isNumber : token.kind = .number value) :
    (OperatorTree.number value).ReadAs [token] (levels + 1)
      (.node (.number value) token.span) := by
  intro level later whole next _ _ climbing
  refine .intro ?_ climbing
  exact Operand.leaf (by rw [isNumber]; rfl) (by rw [isNumber]; rfl)

/-- The tree is all that is read where what stands behind it is looser than the level. -/
theorem alone {tree : OperatorTree} {tokens : List Token} {value : Expr}
    (reads : tree.ReadAs tokens levels value) {level : Nat} {next : TokenKind}
    (behind : ∀ joint, BinaryOperator.ofKind? next = some joint →
      joint.rank < level ∧ tree.openTo joint.rank = false)
    (tight : ∀ own ∈ tree.level?, level ≤ own) :
    Expression (operandRule levels) level tokens value next := by
  have looser : Climbing (operandRule levels) level value [] value next :=
    .done fun joint found => joint.level_eq_rank ▸ (behind joint found).1
  have whole : Expression (operandRule levels) level (tokens ++ []) value next :=
    reads (fun joint found => (behind joint found).2) tight looser
  rwa [List.append_nil] at whole

/-- What stands behind is neither taken in by the operand nor climbed to in it. -/
theorem unary {operator : UnaryOperator} {operand : OperatorTree} {token : Token}
    {tokens : List Token} {value : Expr} (reads : operand.ReadAs tokens levels value)
    (isSign : UnaryOperator.ofKind? token.kind = some operator)
    (tight : ∀ own ∈ operand.level?, operator.operandLevel ≤ own) :
    (OperatorTree.unary operator operand).ReadAs (token :: tokens) (levels + 1)
      (.node (.unary operator value) (token.span.cover value.span)) := by
  intro level later whole next closed _ climbing
  have inner : Expression (operandRule levels) operator.operandLevel tokens value
      (kindAfter later next) := by
    refine reads.alone (fun joint found => ?_) tight
    have both := closed joint found
    rw [openTo, Bool.or_eq_false_iff, decide_eq_false_iff_not, Nat.not_le] at both
    exact both
  exact .intro (Operand.unary isSign inner) climbing

/-- Climbing from the left operand reads the operator, the right operand and then the rest. -/
theorem binary {operator : BinaryOperator} {left right : OperatorTree} {sign : Token}
    {leftTokens rightTokens : List Token} {leftValue rightValue : Expr}
    (readsLeft : left.ReadAs leftTokens levels leftValue)
    (readsRight : right.ReadAs rightTokens levels rightValue)
    (isSign : BinaryOperator.ofKind? sign.kind = some operator) (isLeft : left.Grouped)
    (closedLeft : left.openTo operator.rank = false)
    (tighter : ∀ own ∈ right.level?, operator.rank + 1 ≤ own) :
    (OperatorTree.binary operator left right).ReadAs (leftTokens ++ sign :: rightTokens) levels
      (leftValue.join operator rightValue) := by
  intro level later whole next closed loose climbing
  have inner : Expression (operandRule levels) (operator.rank + 1) rightTokens rightValue
      (kindAfter later next) := by
    refine readsRight.alone (fun joint found => ?_) tighter
    have both := closed joint found
    rw [openTo, Bool.or_eq_false_iff, decide_eq_false_iff_not, Nat.not_lt] at both
    exact ⟨Nat.lt_succ_of_le both.1, both.2⟩
  have loosest : level ≤ operator.rank := loose operator.rank rfl
  have joined : Climbing (operandRule levels) level leftValue
      (sign :: (rightTokens ++ later)) whole next := by
    rw [← operator.level_eq_rank] at inner loosest
    cases inner with
    | intro first others =>
      rw [List.append_assoc]
      exact .step isSign loosest first others climbing
  rw [List.append_assoc]
  refine readsLeft (fun joint found => ?_) (fun own found => ?_) joined
  · obtain rfl : operator = joint := Option.some.inj (isSign.symm.trans found)
    exact closedLeft
  · exact loosest.trans (((openTo_eq_false_iff isLeft operator).mp closedLeft).1 own found)

end ReadAs

/-- **A grouped tree is read from the tokens that stand for its items.** -/
theorem exists_readAs {tree : OperatorTree} (grouped : tree.Grouped) {tokens : List Token}
    (stand : StandFor tokens tree.items) {levels : Nat} (few : tree.signs < levels) :
    ∃ value : Expr, value.Shows tree ∧ tree.ReadAs tokens levels value := by
  induction tree generalizing tokens levels with
  | number value =>
    obtain ⟨levels, rfl⟩ : ∃ fewer, levels = fewer + 1 := Nat.exists_eq_add_one_of_ne_zero (by omega)
    cases stand with
    | cons isKind others =>
      cases others
      exact ⟨_, .number, .number isKind⟩
  | unary operator operand ih =>
    obtain ⟨levels, rfl⟩ : ∃ fewer, levels = fewer + 1 := Nat.exists_eq_add_one_of_ne_zero (by omega)
    obtain ⟨tight, isOperand⟩ := grouped_unary_iff.mp grouped
    cases stand with
    | cons isKind others =>
      obtain ⟨value, shows, reads⟩ := ih isOperand others (Nat.lt_of_succ_lt_succ few)
      exact ⟨_, .unary shows, reads.unary isKind tight⟩
  | binary operator left right ihLeft ihRight =>
    obtain ⟨closedLeft, tighter, isLeft, isRight⟩ := grouped_binary_iff.mp grouped
    obtain ⟨leftTokens, signAndRight, rfl, leftStand, rightStand⟩ := StandFor.exists_append stand
    have fewer : left.signs + right.signs < levels := few
    have fewLeft : left.signs < levels := by omega
    have fewRight : right.signs < levels := by omega
    cases rightStand with
    | cons isKind rightStand =>
      obtain ⟨leftValue, leftShows, readsLeft⟩ := ihLeft isLeft leftStand fewLeft
      obtain ⟨rightValue, rightShows, readsRight⟩ := ihRight isRight rightStand fewRight
      exact ⟨_, .binary leftShows rightShows,
        readsLeft.binary readsRight isKind isLeft closedLeft tighter⟩

/-- A grouped tree is what its tokens are read as. -/
theorem exists_reading {tree : OperatorTree} (grouped : tree.Grouped) {tokens : List Token}
    (stand : StandFor tokens tree.items) (few : tree.signs < maxNesting) :
    ∃ value : Expr, value.Shows tree ∧ ExpressionOfLevel 0 tokens value .endOfInput := by
  obtain ⟨value, shows, reads⟩ := exists_readAs grouped stand few
  refine ⟨value, shows, reads.alone (fun joint found => ?_) (fun own _ => Nat.zero_le own)⟩
  cases found

/-- The operators in front of operands are counted by the items. -/
theorem signs_eq_countP (tree : OperatorTree) :
    tree.signs = tree.items.countP fun item => item matches .sign _ := by
  induction tree with
  | number => rfl
  | unary operator operand ih => simp [signs, items, ih]
  | binary operator left right ihLeft ihRight => simp [signs, items, ihLeft, ihRight]

end OperatorTree

/-- **Precedence climbing builds the one tree that groups the operators of a chain.** -/
theorem readExpression_chain {source : String} (chain : Chain)
    (few : (chain.items.countP fun item => item matches .sign _) ≤ 127)
    (written : Item.WrittenApart chain.items source.toList) :
    ∃ (expr : Expr) (tree : OperatorTree),
      readExpression source = .ok expr ∧ expr.Shows tree ∧ tree.items = chain.items ∧
        tree.Grouped ∧
        ∀ other : OperatorTree, other.items = chain.items → other.Grouped → other = tree := by
  obtain ⟨pieces, same, together, sound, stand⟩ := written.exists_pieces
  have reads (tree : OperatorTree) (grouped : tree.Grouped) (all : tree.items = chain.items) :
      ∃ expr : Expr, expr.Shows tree ∧ readExpression source = .ok expr := by
    have fewSigns : tree.signs < maxNesting := by
      rw [tree.signs_eq_countP, all]
      exact Nat.lt_succ_of_le few
    obtain ⟨expr, shows, reading⟩ :=
      OperatorTree.exists_reading grouped (all ▸ stand .start) fewSigns
    exact ⟨expr, shows, readExpression_of_pieces same.symm together sound reading⟩
  obtain ⟨tree, grouped, all⟩ := chain.exists_grouped
  obtain ⟨expr, shows, accepted⟩ := reads tree grouped all
  refine ⟨expr, tree, accepted, shows, all, grouped, fun other otherAll otherGrouped => ?_⟩
  -- The other tree is read from the same source, so the same expression shows it.
  obtain ⟨otherExpr, otherShows, otherAccepted⟩ := reads other otherGrouped otherAll
  obtain rfl : otherExpr = expr := Except.ok.inj (otherAccepted.symm.trans accepted)
  exact otherShows.unique shows

/-- A comparison behind a factor that begins with `NOT` is taken in by the `NOT`. -/
theorem readExpression_chain_not :
    let number (digit : Nat) : Binary64 := .ofRatio digit 1
    let chain : Chain := ⟨⟨[.negate], number 1⟩, [(.multiply, ⟨[.logicalNot], number 2⟩),
      (.equal, ⟨[], number 3⟩), (.logicalOr, ⟨[], number 4⟩)]⟩
    (chain.items.countP fun item => item matches .sign _) ≤ 127 ∧
      Item.WrittenApart chain.items "- 1 * NOT 2 = 3 || 4".toList ∧
      ∃ (expr : Expr) (tree : OperatorTree),
        (readExpression "- 1 * NOT 2 = 3 || 4" = .ok expr ∧ expr.Shows tree ∧
          tree.items = chain.items ∧ tree.Grouped ∧
          ∀ other : OperatorTree, other.items = chain.items → other.Grouped → other = tree) ∧
        tree = .binary .logicalOr
          (.binary .multiply (.unary .negate (.number (number 1)))
            (.unary .logicalNot (.binary .equal (.number (number 2)) (.number (number 3)))))
          (.number (number 4)) := by
  intro number chain
  have few : (chain.items.countP fun item => item matches .sign _) ≤ 127 := by decide
  have spelled : "- 1 * NOT 2 = 3 || 4".toList =
      [] ++ (['-'] ++ ([' '] ++ (['1'] ++ ([' '] ++ (['*'] ++ ([' '] ++ (['N', 'O', 'T'] ++
        ([' '] ++ (['2'] ++ ([' '] ++ (['='] ++ ([' '] ++ (['3'] ++ ([' '] ++ (['|', '|'] ++
          ([' '] ++ (['4'] ++ []))))))))))))))))) := rfl
  have items : chain.items = [.sign .negate, .number (number 1), .joint .multiply,
      .sign .logicalNot, .number (number 2), .joint .equal, .number (number 3), .joint .logicalOr,
      .number (number 4)] := by
    simp [chain, Chain.items, SignedNumber.items]
  have space : ∀ char ∈ [' '], Unicode.isWhiteSpace char = true :=
    List.forall_mem_singleton.mpr (by decide)
  have nothing : ∀ char ∈ ([] : List Char), Unicode.isWhiteSpace char = true := by simp
  have apart {later : List Char} :
      ∀ char ∈ ([' '] ++ later).head?, Unicode.isWhiteSpace char = true := by simp [space]
  have written : Item.WrittenApart chain.items "- 1 * NOT 2 = 3 || 4".toList := by
    rw [items, spelled]
    refine .cons nothing ⟨"-", .head _, rfl⟩ apart ?_
    refine .cons space rfl apart ?_
    refine .cons space ⟨"*", .head _, rfl⟩ apart ?_
    refine .cons space ⟨"NOT", .head _, rfl⟩ apart ?_
    refine .cons space rfl apart ?_
    refine .cons space ⟨"=", .head _, rfl⟩ apart ?_
    refine .cons space rfl apart ?_
    refine .cons space ⟨"||", .tail _ (.head _), rfl⟩ apart ?_
    exact .cons space rfl (by simp) (.nil nothing)
  refine ⟨few, written, ?_⟩
  obtain ⟨expr, tree, accepted, shows, all, grouped, unique⟩ :=
    readExpression_chain chain few written
  refine ⟨expr, tree, ⟨accepted, shows, all, grouped, unique⟩, (unique _ ?_ ?_).symm⟩
  · rw [items]
    rfl
  · simp [OperatorTree.Grouped, OperatorTree.level?, OperatorTree.endsInNot, BinaryOperator.rank]

end DaxScript
