import DaxScript.Proofs.Grammar.Gaps

/-!
# Empty positions

Nothing may stand between commas, parentheses and braces in three ways only (`emptyPositions`): a
call or the filters of a measure or a column may have no arguments at all, braces may have nothing
in them, and the cells of a row of data may be left out.  So `(,` and `,)` stand in no accepted
expression, and `,,`, `,}` and `{,` stand in rows of data only.

In turn a row of data has a cell for each of its positions.  Which tokens make up a row is told by
the tokens (`OpensDataRow`), so this says where a cell is left out and which expression it is if it
is not.  The table with the row is the one that is read from its own word on, and no other table
around it (`Expr.HasAround`).
-/

set_option autoImplicit false

namespace DaxScript

open Production TokenOutline

/-- What an expression says of two of the tokens of its source that stand side by side. -/
structure Expr.Separates (source : List Token) (expr : Expr) (before : List Token)
    (first second : Token) : Prop where
  parenComma : first.kind = .symbol .leftParen → second.kind ≠ .symbol .comma
  commaParen : first.kind = .symbol .comma → second.kind ≠ .symbol .rightParen
  /-- Empty parentheses belong to a call or to a measure or a column that is filtered. -/
  parens : first.kind = .symbol .leftParen → second.kind = .symbol .rightParen →
    ∃ lead token, before = lead ++ [token] ∧
      ((∃ name, token.kind.functionName? = some name ∧
          expr.HasAround source (.call name []) token.span.start second.span.stop) ∨
        ∃ name target start, token.kind = .bracketName name ∧ start ≤ token.span.start ∧
          expr.HasAround source (.calculate target []) start second.span.stop)
  /-- A value that is left out next to a comma is one of a row of data. -/
  cell : first.kind = .symbol .comma ∧ second.kind = .symbol .comma ∨
      first.kind = .symbol .comma ∧ second.kind = .symbol .rightBrace ∨
      first.kind = .symbol .leftBrace ∧ second.kind = .symbol .comma →
    InDataRow (before ++ [first])

theorem Neighbours.separates {source : List Token} {expr : Expr} {before after : List Token}
    {first second : Token}
    (known : Neighbours (expr.HasAround source) InDataRow before first second after) :
    expr.Separates source before first second where
  parenComma opens isComma := by
    have gap := known.gap (by rw [opens]; rfl) (by rw [isComma]; rfl)
    cases gap <;> simp_all
  commaParen isComma closes := by
    have gap := known.gap (by rw [isComma]; rfl) (by rw [closes]; rfl)
    cases gap <;> simp_all
  parens opens closes := by
    cases known.gap (by rw [opens]; rfl) (by rw [closes]; rfl) with
    | arguments split named _ _ around => exact ⟨_, _, split, .inl ⟨_, named, around⟩⟩
    | filters split named _ _ starts around =>
      exact ⟨_, _, split, .inr ⟨_, _, _, named, starts, around⟩⟩
    | braces opens' => simp [opens] at opens'
    | cell opens' => simp [opens] at opens'
  cell kinds := by
    have gap : Gap (expr.HasAround source) InDataRow before first second := by
      rcases kinds with ⟨opens, closes⟩ | ⟨opens, closes⟩ | ⟨opens, closes⟩
      all_goals exact known.gap (by rw [opens]; rfl) (by rw [closes]; rfl)
    cases gap with
    | cell _ _ inside => exact inside
    | arguments _ _ opens closes => simp_all
    | filters _ _ opens closes => simp_all
    | braces opens closes => simp_all

/-- The first brace behind plain tokens is the same however it is found. -/
theorem eq_of_isPlain {first second : List Token} {opening opening' : Token}
    {behind behind' : List Token} (plain : ∀ token ∈ first, isPlain token.kind = true)
    (plain' : ∀ token ∈ second, isPlain token.kind = true)
    (opens : opening.kind = .symbol .leftBrace) (opens' : opening'.kind = .symbol .leftBrace)
    (same : first ++ opening :: behind = second ++ opening' :: behind') :
    first = second ∧ behind = behind' := by
  have notPlain {token : Token} {tokens : List Token} (opens : token.kind = .symbol .leftBrace)
      (plain : ∀ other ∈ token :: tokens, isPlain other.kind = true) : False := by
    have isPlain := plain token (.head _)
    rw [opens] at isPlain
    cases isPlain
  induction first generalizing second with
  | nil =>
    cases second with
    | nil => exact ⟨rfl, (List.cons.inj same).2⟩
    | cons token others =>
      obtain ⟨rfl, _⟩ := List.cons.inj same
      exact (notPlain opens plain').elim
  | cons token first ih =>
    cases second with
    | nil =>
      obtain ⟨rfl, _⟩ := List.cons.inj same
      exact (notPlain opens' plain).elim
    | cons other second =>
      obtain ⟨rfl, sameTail⟩ := List.cons.inj same
      obtain ⟨rfl, rfl⟩ := ih (fun other member => plain other (.tail _ member))
        (fun other member => plain' other (.tail _ member)) sameTail
      exact ⟨rfl, rfl⟩

/-- **What opens a row of data opens one that was read.** -/
theorem Orderly.exists_row {found : Surroundings} {inRow : List Token → Prop}
    {word closing : Token} {index : Nat} {opened inner behind : List Token}
    (orderly : Orderly found inRow (opened ++ (inner ++ closing :: behind)))
    (opens : OpensDataRow word index opened) (balanced : Balanced inner)
    (closes : closing.kind = .symbol .rightBrace) :
    ∃ columns rows cells stop, found (.dataTable columns rows) word.span.start stop ∧
      closing.span.stop ≤ stop ∧ rows[index]? = some cells ∧ IsCells inner cells := by
  obtain @⟨lead, heads, rowsFront, outer, opening, row, named, opensOuter, plain, opensRows,
    rowsBalanced, counts, opensRow⟩ := opens
  have split : (lead ++ word :: outer :: (heads ++ opening :: (rowsFront ++ [row]))) ++
      (inner ++ closing :: behind) = lead ++ word :: outer ::
        (heads ++ opening :: (rowsFront ++ row :: (inner ++ closing :: behind))) := by simp
  have data := (orderly split).data named opensOuter
  generalize isText : heads ++ opening :: (rowsFront ++ row :: (inner ++ closing :: behind)) = text
    at data
  obtain ⟨plain', opens', laid, closes', among, around⟩ := data
  obtain ⟨rfl, sameRows⟩ := eq_of_isPlain plain plain' opensRows opens' isText
  obtain ⟨index', cells, counts', isCells, filled, member⟩ :=
    laid.exists_row rowsBalanced balanced closes opensRow sameRows closes'
  obtain rfl : index = index' := by omega
  exact ⟨_, _, cells, _, around, among closing member, isCells, filled⟩

/-- An equals sign in front of an expression changes nothing. -/
theorem orderly_withoutEquals {source tokens : List Token} {expr : Expr}
    (reading : Rule.ExpressionOfLevel 0 (withoutEquals tokens) expr .endOfInput)
    (stretch : Stretch source tokens) : Orderly (expr.HasAround source) InDataRow tokens := by
  cases tokens with
  | nil => exact .nil
  | cons first rest =>
    by_cases equals : first.kind = .symbol .equal
    · rw [withoutEquals, if_pos equals] at reading
      exact .behindEnd (by rw [equals]; rfl) (reading.orderly stretch.tail)
    · rw [withoutEquals, if_neg equals] at reading
      exact reading.orderly stretch

/-- What is known of the tokens of an expression is known of those of its source. -/
theorem orderly_of_accepted {source : String} {expr : Expr}
    (accepted : readExpression source = .ok expr) :
    Orderly (expr.HasAround (Input.ofSource source).tokens) InDataRow
      (Input.ofSource source).tokens := by
  have read := (readExpression_ok_iff.mp accepted).1
  rw [← Input.tokens_ofSource] at read
  exact orderly_withoutEquals (yields_expression_iff.mp (expressionOfTokens_ok_iff.mp read))
    ⟨List.infix_rfl, Input.inOrder_tokens source, fun _ member => Input.start_lt_stop member⟩

/-- **Positions are empty in rows of data only**, and there each position yields one cell, which is
absent if and only if the position is empty. -/
theorem emptyPositions {source : String} {expr : Expr}
    (accepted : readExpression source = .ok expr) :
    let tokens := (Input.ofSource source).tokens
    (∀ before first second after, tokens = before ++ first :: second :: after →
        expr.Separates tokens before first second) ∧
      ∀ word index opened inner closing behind,
        tokens = opened ++ (inner ++ closing :: behind) → OpensDataRow word index opened →
        Balanced inner → closing.kind = .symbol .rightBrace →
          ∃ columns rows cells,
            expr.HasAround tokens (.dataTable columns rows) word.span.start closing.span.stop ∧
              rows[index]? = some cells ∧ List.Forall₂ IsCell (positions 0 inner) cells := by
  intro tokens
  have orderly : Orderly (expr.HasAround tokens) InDataRow tokens := orderly_of_accepted accepted
  refine ⟨fun before first second after split => (orderly split).separates, ?_⟩
  intro word index opened inner closing behind split opens balanced closes
  have inRows : Orderly (expr.HasAround tokens) InDataRow
      (opened ++ (inner ++ closing :: behind)) := split ▸ orderly
  obtain ⟨columns, rows, cells, stop, ⟨node, inside, isForm, starts, stops⟩, within, isCells,
    filled⟩ := inRows.exists_row opens balanced closes
  exact ⟨columns, rows, cells, ⟨node, inside, isForm, starts, Nat.le_trans within stops⟩, isCells,
    filled⟩

/-- A table of data with a cell left out at the end of one row and at the start of another, and with
a call that has no arguments: `=DATATABLE("a",DOUBLE,"b",DOUBLE,{{x,},{,F()}})`. -/
theorem emptyPositions_dataTable :
    let source := "=DATATABLE(\"a\",DOUBLE,\"b\",DOUBLE,\x7b\x7bx,\x7d,\x7b,F()\x7d\x7d)"
    let name := Expr.node (.tableName "x") ⟨35, 36⟩
    let call := Expr.node (.call "F" []) ⟨41, 44⟩
    let expr := Expr.node (.dataTable [⟨"a", .double⟩, ⟨"b", .double⟩]
      [[some name, none], [none, some call]]) ⟨1, 47⟩
    let tokens := (Input.ofSource source).tokens
    readExpression source = .ok expr ∧
      (∀ before first second after, tokens = before ++ first :: second :: after →
        expr.Separates tokens before first second) ∧
      ∀ word index opened inner closing behind,
        tokens = opened ++ (inner ++ closing :: behind) → OpensDataRow word index opened →
        Balanced inner → closing.kind = .symbol .rightBrace →
          ∃ columns rows cells,
            expr.HasAround tokens (.dataTable columns rows) word.span.start closing.span.stop ∧
              rows[index]? = some cells ∧ List.Forall₂ IsCell (positions 0 inner) cells := by
  intro source name call expr tokens
  have accepted : readExpression source = .ok expr := by
    cbv
  exact ⟨accepted, emptyPositions accepted⟩

end DaxScript
