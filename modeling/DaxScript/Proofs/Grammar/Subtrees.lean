import DaxScript.Proofs.Grammar.ExpressionRule

/-!
# Where the parts of an expression are read

Every subtree of an expression is read from some of its tokens that follow each other, and these
tokens make up the subtree by themselves: at the least level of all and with the end of the input
behind them (`Rule.ExpressionOfLevel.locates`).

This holds of the contents of operands by induction on the levels of nesting.  Climbing needs a
statement of its own.  What it joins to an expression on the left is no part of the tokens it
reads, so a subtree of its result lies in that expression, or is read by itself, or is joined to
the expression by the first of the tokens (`Rule.JoinedTo`).
-/

set_option autoImplicit false

namespace DaxScript

open Production

/-! ## Subtrees -/

/-- One expression is another or lies below it. -/
inductive Expr.Subtree (node : Expr) : Expr → Prop where
  | self : Subtree node node
  | under {child expr : Expr} (member : child ∈ expr.children) (inside : Subtree node child) :
      Subtree node expr

/-- The children of an expression are listed one deeper than the expression. -/
theorem Expr.mem_subtrees_of_mem_children {expr child : Expr} (member : child ∈ expr.children)
    (depth : Nat) : (depth + 1, child) ∈ expr.subtrees depth := by
  have first : (depth + 1, child) ∈ child.subtrees (depth + 1) := by
    rw [subtrees]
    exact List.mem_cons_self ..
  rw [subtrees]
  exact List.mem_cons_of_mem _
    (List.mem_flatMap.mpr ⟨⟨child, member⟩, List.mem_attach _ _, first⟩)

/-- What is listed among the subtrees of an expression is one. -/
theorem Expr.subtree_of_mem_subtrees {expr node : Expr} {depth depth' : Nat}
    (member : (depth', node) ∈ expr.subtrees depth) : node.Subtree expr := by
  rw [subtrees] at member
  rcases List.mem_cons.mp member with same | below
  · cases same
    exact .self
  · obtain ⟨⟨child, isChild⟩, _, inside⟩ := List.mem_flatMap.mp below
    exact .under isChild (subtree_of_mem_subtrees inside)
termination_by sizeOf expr
decreasing_by exact sizeOf_lt_of_mem_children isChild

/-- A subtree of a node with another span is the node itself or lies below it. -/
theorem Expr.Subtree.eq_or_below {node expr : Expr} (inside : node.Subtree expr) :
    node = expr ∨ ∃ child ∈ expr.children, node.Subtree child := by
  cases inside with
  | self => exact .inl rfl
  | under member inside => exact .inr ⟨_, member, inside⟩

namespace Rule

/-! ## Tokens that make up a node by themselves -/

/-- Some of the tokens that follow each other make up a node by themselves. -/
def Locates (used : List Token) (node : Expr) : Prop :=
  ∃ before own after, used = before ++ (own ++ after) ∧
    ExpressionOfLevel 0 own node .endOfInput

namespace Locates

variable {used : List Token} {node : Expr}

theorem whole (reading : ExpressionOfLevel 0 used node .endOfInput) : Locates used node :=
  ⟨[], used, [], by simp, reading⟩

theorem behind (more : List Token) (located : Locates used node) :
    Locates (more ++ used) node := by
  obtain ⟨before, own, after, rfl, reading⟩ := located
  exact ⟨more ++ before, own, after, by simp, reading⟩

theorem inFront (more : List Token) (located : Locates used node) :
    Locates (used ++ more) node := by
  obtain ⟨before, own, after, rfl, reading⟩ := located
  exact ⟨before, own, after ++ more, by simp, reading⟩

theorem cons (token : Token) (located : Locates used node) : Locates (token :: used) node :=
  located.behind [token]

end Locates

/-- All nodes that lie inside of what a rule reads are located in the tokens it reads. -/
def Finds {α : Type} (inside : Expr → α → Prop) (rule : Rule α) : Prop :=
  ∀ ⦃used : List Token⦄ ⦃value : α⦄ ⦃next : TokenKind⦄, rule used value next →
    ∀ ⦃node : Expr⦄, inside node value → Locates used node

/-- Inside of one of several values. -/
def InsideSome {α : Type} (inside : Expr → α → Prop) (node : Expr) (values : List α) : Prop :=
  ∃ value ∈ values, inside node value

section Repetition

variable {α : Type} {inside : Expr → α → Prop} {item : Rule α}

theorem Finds.afterComma (finds : Finds inside item) : Finds inside (AfterComma item) := by
  intro used value next reading node isInside
  cases reading with
  | intro sign reading => exact (finds reading isInside).cons _

theorem Finds.repeated (finds : Finds inside item) (continues : TokenKind → Bool) :
    Finds (InsideSome inside) (Repeated continues item) := by
  intro used values next reading node isInside
  induction reading with
  | done =>
    obtain ⟨_, member, _⟩ := isInside
    cases member
  | @more used later value values next goesOn reading others ih =>
    obtain ⟨found, member, isInside⟩ := isInside
    rcases List.mem_cons.mp member with rfl | member
    · exact (finds reading isInside).inFront later
    · exact (ih ⟨found, member, isInside⟩).behind used

theorem Finds.separated (finds : Finds inside item) :
    Finds (InsideSome inside) (Separated item) := by
  intro used values next reading node isInside
  cases reading with
  | @intro used later value values _ reading others =>
    obtain ⟨found, member, isInside⟩ := isInside
    rcases List.mem_cons.mp member with rfl | member
    · exact (finds reading isInside).inFront later
    · exact (finds.afterComma.repeated _ others ⟨found, member, isInside⟩).behind used

theorem Finds.separatedUnless (finds : Finds inside item) (close : Symbol) :
    Finds (InsideSome inside) (SeparatedUnless close item) := by
  intro used values next reading node isInside
  cases reading with
  | none =>
    obtain ⟨_, member, _⟩ := isInside
    cases member
  | some _ items => exact finds.separated items isInside

end Repetition

/-! ## Parts of operands -/

section Parts

variable {expr : Rule Expr} (finds : Finds Expr.Subtree expr)
include finds

theorem finds_arguments :
    Finds (fun node values => InsideSome Expr.Subtree node values.1) (Arguments expr) := by
  intro used values next reading node isInside
  cases reading with
  | @intro opening closing used values _ opens items closes =>
    exact ((finds.separatedUnless _ items isInside).inFront [closing]).cons opening

theorem finds_binding : Finds (fun node binding => node.Subtree binding.2) (Binding expr) := by
  intro used binding next reading node isInside
  cases reading with
  | intro opens named sign reading => exact (((finds reading isInside).cons _).cons _).cons _

/-- A row has nothing in it that its element has not. -/
theorem finds_tableRow (width? : Option Nat) :
    Finds (InsideSome Expr.Subtree) (TableRow expr width?) := by
  intro used row next reading node isInside
  cases reading with
  | @intro used value row _ reading isRow fits =>
    obtain ⟨cell, member, isInside⟩ := isInside
    refine finds reading ?_
    obtain ⟨form, span⟩ := value
    cases form with
    | tuple values =>
      cases isRow
      exact .under member isInside
    | table => cases isRow
    | _ =>
      cases isRow
      obtain rfl := List.mem_singleton.mp member
      exact isInside

theorem finds_tableRows :
    Finds (InsideSome (InsideSome Expr.Subtree)) (TableRows expr) := by
  intro used rows next reading node isInside
  cases reading with
  | none =>
    obtain ⟨_, member, _⟩ := isInside
    cases member
  | @some used later row rows _ _ first others =>
    obtain ⟨found, member, isInside⟩ := isInside
    rcases List.mem_cons.mp member with rfl | member
    · exact (finds_tableRow finds _ first isInside).inFront later
    · exact ((finds_tableRow finds _).afterComma.repeated _ others
        ⟨found, member, isInside⟩).behind used

theorem finds_dataCell :
    Finds (fun node cell => ∃ value ∈ cell, node.Subtree value) (DataCell expr) := by
  intro used cell next reading node isInside
  obtain ⟨value, present, isInside⟩ := isInside
  cases reading with
  | absent => cases present
  | present _ reading =>
    cases present
    exact finds reading isInside

theorem finds_dataRow (width : Nat) :
    Finds (InsideSome fun node cell => ∃ value ∈ cell, node.Subtree value)
      (DataRow expr width) := by
  intro used row next reading node isInside
  cases reading with
  | @intro opening closing used cells _ opens items closes fits =>
    exact (((finds_dataCell finds).separated items isInside).inFront [closing]).cons opening

end Parts

/-! ## Operands -/

/-- An operand at the end of the input is an expression. -/
theorem expressionOfLevel_of_operand {used : List Token} {value : Expr}
    (reading : operandRule maxNesting used value .endOfInput) :
    ExpressionOfLevel 0 used value .endOfInput :=
  .of_operand reading rfl

theorem children_of_leaf? {kind : TokenKind} {form : Form Expr} (stated : kind.leaf? = some form) :
    form.children = [] := by
  cases kind with
  | keyword word => cases word <;> cases stated <;> rfl
  | _ => cases stated <;> rfl

/-- Nodes in a measure or a column with filters are in the measure or the column or in the
filters. -/
theorem Filters.locates {expr : Rule Expr} (finds : Finds Expr.Subtree expr) {target value : Expr}
    {before used : List Token} {next : TokenKind}
    (alone : ∀ node, node.Subtree target → Locates before node)
    (reading : Filters expr target used value next) {child node : Expr}
    (member : child ∈ value.children) (inside : node.Subtree child) :
    Locates (before ++ used) node := by
  cases reading with
  | none =>
    rw [List.append_nil]
    exact alone node (.under member inside)
  | some filters =>
    rcases List.mem_cons.mp member with rfl | member
    · exact (alone node inside).inFront used
    · exact (finds_arguments finds filters ⟨child, member, inside⟩).behind before

/-- A node without children is its only subtree. -/
theorem eq_of_subtree_of_children_eq_nil {node expr : Expr} (childless : expr.children = [])
    (inside : node.Subtree expr) : node = expr := by
  rcases inside.eq_or_below with same | ⟨child, member, _⟩
  · exact same
  · rw [childless] at member
    cases member

/-- Whatever lies below the root of an operand is located in its tokens. -/
theorem Operand.locates {expr : Nat → Rule Expr}
    (finds : ∀ level, Finds Expr.Subtree (expr level)) {used : List Token} {value : Expr}
    {next : TokenKind} (reading : Operand expr used value next) {child node : Expr}
    (member : child ∈ value.children) (inside : node.Subtree child) : Locates used node := by
  cases reading with
  | leaf stated =>
    rw [Expr.children, Expr.form, children_of_leaf? stated] at member
    cases member
  | @measure token name used value _ named filters =>
    have located : Locates ([token] ++ used) node := by
      refine Filters.locates (finds 0) (fun node inside => ?_) filters member inside
      obtain rfl := eq_of_subtree_of_children_eq_nil rfl inside
      exact .whole (expressionOfLevel_of_operand (.measure named (.none rfl)))
    exact located
  | @column table column tableName columnName used value _ tableNamed columnNamed filters =>
    have located : Locates ([table, column] ++ used) node := by
      refine Filters.locates (finds 0) (fun node inside => ?_) filters member inside
      obtain rfl := eq_of_subtree_of_children_eq_nil rfl inside
      exact .whole (expressionOfLevel_of_operand (.column tableNamed columnNamed (.none rfl)))
    exact located
  | @call token name used values stop _ named arguments =>
    exact (finds_arguments (finds 0) arguments ⟨child, member, inside⟩).cons token
  | @unary token operator used value _ sign operand =>
    obtain rfl := List.mem_singleton.mp member
    exact (finds _ operand inside).cons token
  | @bindings word result used later values body _ opens items separates reading =>
    rcases List.mem_append.mp member with isValue | isBody
    · obtain ⟨binding, isBinding, rfl⟩ := List.mem_map.mp isValue
      exact ((finds_binding (finds 0)).repeated _ items ⟨binding, isBinding, inside⟩).inFront
        (result :: later)
    · obtain rfl := List.mem_singleton.mp isBody
      exact (((finds 0 reading inside).cons result).behind used).cons word
  | @group opening closing used value _ opens reading closes =>
    exact ((finds 0 reading (.under member inside)).inFront [closing]).cons opening
  | @tuple opening closing used first second others _ opens items closes =>
    exact (((finds 0).separated items ⟨child, member, inside⟩).inFront [closing]).cons opening
  | @table opening closing used rows _ opens items closes =>
    obtain ⟨row, isRow, member⟩ := List.mem_flatten.mp member
    exact ((finds_tableRows (finds 0) items ⟨row, isRow, child, member, inside⟩).inFront
      [closing]).cons opening
  | @dataTable word outer opening closing last used later columns rows _ named opens heads some
      opensRows items closesRows closes =>
    obtain ⟨cell, member, present⟩ := List.mem_filterMap.mp member
    obtain ⟨row, isRow, member⟩ := List.mem_flatten.mp member
    have located := (finds_dataRow (finds 0) _).separatedUnless _ items
      ⟨row, isRow, cell, member, child, present, inside⟩
    exact ((((located.inFront [closing, last]).cons opening).behind used).cons outer).cons word

/-! ## Climbing -/

/-- The first of some tokens join a node to an expression on the left. -/
def JoinedTo (left : Expr) (used : List Token) (node : Expr) : Prop :=
  ∃ own after, used = own ++ after ∧
    Climbing (operandRule maxNesting) 0 left own node .endOfInput

section Climbing

variable {operand : Rule Expr} (within : operand.Within (operandRule maxNesting))
  (finds : Finds Expr.Subtree operand)
include within finds

/-- **Climbing regroups in the same way wherever it is cut off**: a subtree of its result lies in
the expression on the left, or is read by itself, or is joined to the expression on the left by
the tokens up to its end. -/
theorem Climbing.locates {level : Nat} {left whole : Expr} {used : List Token} {next : TokenKind}
    (reading : Climbing operand level left used whole next) {node : Expr}
    (inside : node.Subtree whole) :
    node.Subtree left ∨ Locates used node ∨ JoinedTo left used node := by
  have cut := operandRule_cuttable maxNesting
  induction reading generalizing node with
  | done => exact .inl inside
  | @step level left first right whole sign operator used middle later next joins _ reading
      tighter others ihTighter ihOthers =>
    -- Whatever of the tokens behind the right operand is cut off, the rest is joined as before.
    have joined {own after : List Token} {whole : Expr} (same : later = own ++ after)
        (continued : Climbing (operandRule maxNesting) 0 (left.join operator right) own whole
          .endOfInput) :
        JoinedTo left (sign :: (used ++ (middle ++ later))) whole := by
      subst same
      rw [← kindAfter_append, ← List.append_assoc] at reading
      have cutReading := cut.keep (within reading)
      have cutTighter := (Climbing.cuttable cut _ _).keep (Climbing.mono within _ _ tighter)
      rw [kindAfter_append] at cutReading
      exact ⟨sign :: (used ++ (middle ++ own)), after, by simp,
        .step joins (Nat.zero_le _) cutReading cutTighter continued⟩
    rcases ihOthers inside with inJoin | located | ⟨own, after, same, continued⟩
    · rcases inJoin.eq_or_below with rfl | ⟨child, member, inside⟩
      · exact .inr (.inr (joined rfl (.doneAt 0 _ rfl)))
      · rcases List.mem_cons.mp member with rfl | member
        · exact .inl inside
        · obtain rfl := List.mem_singleton.mp member
          refine .inr (.inl ?_)
          rcases ihTighter inside with inFirst | located | ⟨own, after, rfl, continued⟩
          · exact ((finds reading inFirst).inFront (middle ++ later)).cons sign
          · exact ((located.inFront later).behind used).cons sign
          · rw [kindAfter_append, ← kindAfter_append after, ← kindAfter_append] at reading
            have cutReading := cut.keep (within reading)
            refine ⟨[sign], used ++ own, after ++ later, by simp, ?_⟩
            exact .intro cutReading continued
    · exact .inr (.inl (((located.behind middle).behind used).cons sign))
    · exact .inr (.inr (joined same continued))

theorem finds_expression (level : Nat) : Finds Expr.Subtree (Expression operand level) := by
  intro used whole next reading node inside
  have cut := operandRule_cuttable maxNesting
  cases reading with
  | @intro first whole used later _ reading others =>
    rcases others.locates within finds inside with inFirst | located | ⟨own, after, rfl, continued⟩
    · exact (finds reading inFirst).inFront later
    · exact located.behind used
    · have cutReading := cut.keep (within reading)
      exact ⟨[], used ++ own, after, by simp, .intro cutReading continued⟩

end Climbing

/-! ## Everything together -/

/-- Every subtree of an operand is located in its tokens. -/
theorem finds_operandRule {levels : Nat} (few : levels ≤ maxNesting) :
    Finds Expr.Subtree (operandRule levels) := by
  induction levels with
  | zero =>
    intro _ _ _ reading
    cases reading
  | succ levels ih =>
    intro used value next reading node inside
    have fewer : levels ≤ maxNesting := by omega
    rcases inside.eq_or_below with rfl | ⟨child, member, inside⟩
    · have cut := operandRule_cuttable maxNesting
      exact .whole (expressionOfLevel_of_operand (cut (operandRule_mono few reading) rfl))
    · exact Operand.locates (finds_expression (operandRule_mono fewer) (ih fewer)) reading member
        inside

/-- **Every subtree of an expression is located in its tokens.** -/
theorem ExpressionOfLevel.locates {level : Nat} {used : List Token} {value node : Expr}
    {next : TokenKind} (reading : ExpressionOfLevel level used value next)
    (inside : node.Subtree value) : Locates used node :=
  finds_expression (operandRule_mono (Nat.le_refl _)) (finds_operandRule (Nat.le_refl _)) level
    reading inside

end Rule

end DaxScript
