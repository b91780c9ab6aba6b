import DaxScript.Proofs.Grammar.PrintedOperand
import DaxScript.Proofs.Grammar.Subtrees

/-!
# Parentheses around a part of an expression

The tokens of a part of an expression may be put in parentheses, and the same expression is read
up to spans (`Rule.ExpressionOfLevel.regroups`).  What is read in parentheses is an operand, so it
may stand wherever the part stood: behind an operator and in front of one, as an argument, as a
value of a row, as the value or the result of variables.  Only a measure or a column with filters
behind it is no part in this sense, because filters do not stand behind parentheses
(`Expr.FreeSubtree`).

There is one lemma for each rule.  A rule that looks at the first of its tokens sees the same token
as before, or a parenthesis, which none of them looks for.  In a chain of operators a part may also
be what the first operators of the chain join to the expression on the left; then it is read in
parentheses first and the rest of the chain goes on from there (`Rule.Climbing.climbed`).

The parentheses are an operand more around the part, so one level of nesting more may be needed.
-/

set_option autoImplicit false

namespace DaxScript

open Production

/-! ## Parts that are operands -/

/-- The children of a node that may stand in parentheses.  Filters stand directly behind their
measure or column. -/
def Form.operands {α : Type} : Form α → List α
  | calculate _ filters => filters
  | form => form.children

/-- The children of an expression that may stand in parentheses. -/
def Expr.operands (expr : Expr) : List Expr :=
  expr.form.operands

/-- One expression is another or lies below it, and it is no measure and no column that has filters
behind it. -/
inductive Expr.FreeSubtree (node : Expr) : Expr → Prop where
  | self : FreeSubtree node node
  | under {child expr : Expr} (member : child ∈ expr.operands) (inside : FreeSubtree node child) :
      FreeSubtree node expr

theorem Expr.mem_children_of_mem_operands {expr child : Expr} (member : child ∈ expr.operands) :
    child ∈ expr.children := by
  obtain ⟨form, span⟩ := expr
  cases form with
  | calculate => exact List.mem_cons_of_mem _ member
  | _ => exact member

/-- Bare expressions that are the same stay the same under an operator. -/
theorem Expr.bare_join {left left' right right' : Expr} (sameLeft : left'.bare = left.bare)
    (sameRight : right'.bare = right.bare) (operator : BinaryOperator) :
    (left'.join operator right').bare = (left.join operator right).bare := by
  rw [join, join, bare_node, bare_node, Form.map, Form.map, sameLeft, sameRight]

/-! ## Tokens in parentheses -/

/-- An opening and a closing parenthesis. -/
structure Parentheses where
  opening : Token
  closing : Token
  opens : opening.kind = .symbol .leftParen
  closes : closing.kind = .symbol .rightParen

namespace Parentheses

variable {signs : Parentheses}

/-- Two lists of tokens are the same, but for the parentheses that stand in the second around some
tokens that make up a node. -/
inductive Enclose (signs : Parentheses) (node : Expr) : List Token → List Token → Prop where
  | here {levels : Nat} {own : List Token} (after : List Token)
      (reading : Rule.Expression (Rule.operandRule levels) 0 own node (.symbol .rightParen)) :
      Enclose signs node (own ++ after) (signs.opening :: (own ++ signs.closing :: after))
  | behind (token : Token) {used used' : List Token} (enclose : Enclose signs node used used') :
      Enclose signs node (token :: used) (token :: used')

namespace Enclose

variable {node : Expr} {used used' : List Token}

theorem prepend (more : List Token) (enclose : signs.Enclose node used used') :
    signs.Enclose node (more ++ used) (more ++ used') := by
  induction more with
  | nil => exact enclose
  | cons token more ih => exact .behind token ih

theorem append (enclose : signs.Enclose node used used') (more : List Token) :
    signs.Enclose node (used ++ more) (used' ++ more) := by
  induction enclose with
  | here after reading => simpa using Enclose.here (after ++ more) reading
  | behind token _ ih => exact .behind token ih

/-- Other tokens may stand at both ends. -/
theorem between (enclose : signs.Enclose node used used') (first last : Token) :
    signs.Enclose node (first :: (used ++ [last])) (first :: (used' ++ [last])) :=
  .behind first (enclose.append [last])

/-- The first token is the opening parenthesis or the same as before. -/
theorem kindAfter_cases (enclose : signs.Enclose node used used') (next : TokenKind) :
    kindAfter used' next = .symbol .leftParen ∨ kindAfter used' next = kindAfter used next := by
  cases enclose with
  | here => exact .inl signs.opens
  | behind => exact .inr rfl

/-- No other sign than an opening parenthesis comes first now that did not before. -/
theorem kindAfter_ne (enclose : signs.Enclose node used used') {sign : Symbol} {next : TokenKind}
    (notParen : sign ≠ .leftParen) (before : kindAfter used next ≠ .symbol sign) :
    kindAfter used' next ≠ .symbol sign := by
  rcases enclose.kindAfter_cases next with opens | same
  · rw [opens]
    exact fun other => notParen (TokenKind.symbol.inj other).symm
  · rwa [same]

/-- The tokens in front of the node, its own, and those behind it. -/
theorem exists_parts (enclose : signs.Enclose node used used') :
    ∃ before own after, used = before ++ (own ++ after) ∧
      used' = before ++ signs.opening :: (own ++ signs.closing :: after) ∧
      ∃ levels, Rule.Expression (Rule.operandRule levels) 0 own node (.symbol .rightParen) := by
  induction enclose with
  | here after reading => exact ⟨[], _, after, rfl, rfl, _, reading⟩
  | behind token _ ih =>
    obtain ⟨before, own, after, rfl, rfl, reading⟩ := ih
    exact ⟨token :: before, own, after, rfl, rfl, reading⟩

end Enclose

/-! ## Rules that read the same with parentheses -/

section Regroups

variable {α β : Type}

/-- Wherever a node lies inside of what one rule reads, it can be put in parentheses, and the other
rule reads the same up to a view. -/
def Regroups (signs : Parentheses) (inside : Expr → α → Prop) (view : α → β)
    (rule rule' : Rule α) : Prop :=
  ∀ ⦃used : List Token⦄ ⦃value : α⦄ ⦃next : TokenKind⦄, rule used value next →
    ∀ ⦃node : Expr⦄, inside node value → ∃ used' value', signs.Enclose node used used' ∧
      view value' = view value ∧ rule' used' value' next

/-- The same, and the first token stays what it was. -/
def RegroupsBehind (signs : Parentheses) (inside : Expr → α → Prop) (view : α → β)
    (rule rule' : Rule α) : Prop :=
  ∀ ⦃used : List Token⦄ ⦃value : α⦄ ⦃next : TokenKind⦄, rule used value next →
    ∀ ⦃node : Expr⦄, inside node value → ∃ used' value', signs.Enclose node used used' ∧
      used'.head? = used.head? ∧ view value' = view value ∧ rule' used' value' next

theorem kindAfter_of_head? {used used' : List Token} (same : used'.head? = used.head?)
    (next : TokenKind) : kindAfter used' next = kindAfter used next := by
  cases used <;> cases used' <;> cases same <;> rfl

variable {inside : Expr → α → Prop} {view : α → β} {item item' : Rule α}

open Rule

theorem Regroups.afterComma (regroups : signs.Regroups inside view item item') :
    signs.RegroupsBehind inside view (AfterComma item) (AfterComma item') := by
  intro used value next reading node isInside
  cases reading with
  | @intro comma used value _ sign reading =>
    obtain ⟨used', value', enclose, same, reading'⟩ := regroups reading isInside
    exact ⟨comma :: used', value', .behind comma enclose, rfl, same, .intro sign reading'⟩

variable (within : item.Within item')
include within

theorem RegroupsBehind.repeated (regroups : signs.RegroupsBehind inside view item item')
    (continues : TokenKind → Bool) :
    signs.RegroupsBehind (InsideSome inside) (List.map view) (Repeated continues item)
      (Repeated continues item') := by
  intro used values next reading node isInside
  induction reading with
  | done =>
    obtain ⟨_, member, _⟩ := isInside
    cases member
  | @more used later value values next goesOn reading others ih =>
    obtain ⟨found, member, isInside⟩ := isInside
    rcases List.mem_cons.mp member with rfl | member
    · obtain ⟨used', value', enclose, first, same, reading'⟩ := regroups reading isInside
      rw [← kindAfter_of_head? first] at goesOn
      exact ⟨used' ++ later, value' :: values, enclose.append later,
        by simp [List.head?_append, first], by simp [same],
        .more goesOn reading' (Repeated.mono within others)⟩
    · obtain ⟨later', values', enclose, first, same, others'⟩ := ih ⟨found, member, isInside⟩
      rw [← kindAfter_of_head? first] at goesOn reading
      exact ⟨used ++ later', value :: values', enclose.prepend used,
        by simp [List.head?_append, first], by simp [same],
        .more goesOn (within reading) others'⟩

theorem Regroups.separated (regroups : signs.Regroups inside view item item') :
    signs.Regroups (InsideSome inside) (List.map view) (Rule.Separated item)
      (Rule.Separated item') := by
  intro used values next reading node isInside
  cases reading with
  | @intro used later value values _ reading others =>
    obtain ⟨found, member, isInside⟩ := isInside
    rcases List.mem_cons.mp member with rfl | member
    · obtain ⟨used', value', enclose, same, reading'⟩ := regroups reading isInside
      exact ⟨used' ++ later, value' :: values, enclose.append later, by simp [same],
        .intro reading' (Repeated.mono (AfterComma.mono within) others)⟩
    · obtain ⟨later', values', enclose, first, same, others'⟩ :=
        regroups.afterComma.repeated (AfterComma.mono within) _ others ⟨found, member, isInside⟩
      rw [← kindAfter_of_head? first] at reading
      exact ⟨used ++ later', value :: values', enclose.prepend used, by simp [same],
        .intro (within reading) others'⟩

theorem Regroups.separatedUnless (regroups : signs.Regroups inside view item item')
    {close : Symbol} (notParen : close ≠ .leftParen) :
    signs.Regroups (InsideSome inside) (List.map view) (SeparatedUnless close item)
      (SeparatedUnless close item') := by
  intro used values next reading node isInside
  cases reading with
  | none =>
    obtain ⟨_, member, _⟩ := isInside
    cases member
  | some opens items =>
    obtain ⟨used', values', enclose, same, items'⟩ := regroups.separated within items isInside
    exact ⟨used', values', enclose, same, .some (enclose.kindAfter_ne notParen opens) items'⟩

end Regroups

end Parentheses

namespace Rule

variable {signs : Parentheses}

/-! ## Parts of operands -/

section Parts

variable {expr expr' : Rule Expr} (within : expr.Within expr')
  (regroups : signs.Regroups Expr.FreeSubtree Expr.bare expr expr')
include within regroups

theorem regroups_arguments :
    signs.Regroups (fun node values => InsideSome Expr.FreeSubtree node values.1)
      (fun values => values.1.map Expr.bare) (Arguments expr) (Arguments expr') := by
  intro used values next reading node isInside
  cases reading with
  | @intro opening closing used values _ opens items closes =>
    obtain ⟨used', values', enclose, same, items'⟩ :=
      regroups.separatedUnless within (by decide) items isInside
    exact ⟨_, (values', _), enclose.between opening closing, same, .intro opens items' closes⟩

omit within in
theorem regroups_binding :
    signs.RegroupsBehind (fun node binding => node.FreeSubtree binding.2)
      (fun binding => (binding.1, binding.2.bare)) (Binding expr) (Binding expr') := by
  intro used binding next reading node isInside
  cases reading with
  | @intro word symbol equals name used value _ opens named sign reading =>
    obtain ⟨used', value', enclose, same, reading'⟩ := regroups reading isInside
    exact ⟨word :: symbol :: equals :: used', (name, value'),
      enclose.prepend [word, symbol, equals], rfl, congrArg (name, ·) same,
      .intro opens named sign reading'⟩

omit within in
/-- Whether a value is a row of its own is told from its form. -/
theorem regroups_tableRow (width? : Option Nat) :
    signs.Regroups (InsideSome Expr.FreeSubtree) (List.map Expr.bare) (TableRow expr width?)
      (TableRow expr' width?) := by
  intro used row next reading node isInside
  cases reading with
  | @intro used value row _ reading isRow fits =>
    obtain ⟨cell, member, isInside⟩ := isInside
    have isInside : node.FreeSubtree value := by
      obtain ⟨form, span⟩ := value
      cases form with
      | tuple values =>
        cases isRow
        exact .under member isInside
      | table => cases isRow
      | _ =>
        cases isRow
        obtain rfl := List.mem_singleton.mp member
        exact isInside
    obtain ⟨used', value', enclose, same, reading'⟩ := regroups reading isInside
    have rows : value'.row?.map (List.map Expr.bare) = some (row.map Expr.bare) := by
      rw [← row?_bare, same, row?_bare, isRow]
      rfl
    obtain ⟨row', isRow', sameRow⟩ := Option.map_eq_some_iff.mp rows
    exact ⟨used', row', enclose, sameRow,
      .intro reading' isRow' (length_eq_of_view sameRow ▸ fits)⟩

theorem regroups_tableRows :
    signs.Regroups (InsideSome (InsideSome Expr.FreeSubtree)) (List.map (List.map Expr.bare))
      (TableRows expr) (TableRows expr') := by
  intro used rows next reading node isInside
  cases reading with
  | none =>
    obtain ⟨_, member, _⟩ := isInside
    cases member
  | @some used later row rows _ opens first others =>
    have wider (width? : Option Nat) := TableRow.mono within width?
    obtain ⟨found, member, isInside⟩ := isInside
    rcases List.mem_cons.mp member with rfl | member
    · obtain ⟨used', row', enclose, same, first'⟩ := regroups_tableRow regroups _ first isInside
      have others' := Repeated.mono (AfterComma.mono (wider _)) others
      rw [← length_eq_of_view same] at others'
      exact ⟨used' ++ later, row' :: rows, enclose.append later, by simp [same],
        .some (enclose.kindAfter_ne (by decide) opens) first' others'⟩
    · obtain ⟨later', rows', enclose, kept, same, others'⟩ :=
        (regroups_tableRow regroups _).afterComma.repeated (AfterComma.mono (wider _)) _ others
          ⟨found, member, isInside⟩
      rw [← Parentheses.kindAfter_of_head? kept] at opens first
      exact ⟨used ++ later', row :: rows', enclose.prepend used, by simp [same],
        .some opens (wider _ first) others'⟩

omit within in
theorem regroups_dataCell :
    signs.Regroups (fun node cell => ∃ value ∈ cell, node.FreeSubtree value)
      (Option.map Expr.bare) (DataCell expr) (DataCell expr') := by
  intro used cell next reading node isInside
  obtain ⟨value, present, isInside⟩ := isInside
  cases reading with
  | absent => cases present
  | present starts reading =>
    cases present
    obtain ⟨used', value', enclose, same, reading'⟩ := regroups reading isInside
    refine ⟨used', some value', enclose, congrArg some same, .present ?_ reading'⟩
    rcases enclose.kindAfter_cases next with opens | kept
    · rw [opens]
      rfl
    · rwa [kept]

theorem regroups_dataRow (width : Nat) :
    signs.Regroups (InsideSome fun node cell => ∃ value ∈ cell, node.FreeSubtree value)
      (List.map (Option.map Expr.bare)) (DataRow expr width) (DataRow expr' width) := by
  intro used row next reading node isInside
  cases reading with
  | @intro opening closing used cells _ opens items closes fits =>
    obtain ⟨used', cells', enclose, same, items'⟩ :=
      (regroups_dataCell regroups).separated (DataCell.mono within) items isInside
    exact ⟨_, cells', enclose.between opening closing, same,
      .intro opens items' closes ((length_eq_of_view same).trans fits)⟩

end Parts

/-! ## Operands -/

/-- A node lies below the root of an expression and may stand in parentheses. -/
def Below (node value : Expr) : Prop :=
  ∃ child ∈ value.operands, node.FreeSubtree child

section Operands

variable {expr expr' : Nat → Rule Expr} (within : ∀ level, (expr level).Within (expr' level))
  (regroups : ∀ level, signs.Regroups Expr.FreeSubtree Expr.bare (expr level) (expr' level))
include within regroups

/-- What lies below a measure or a column with filters lies in the filters. -/
theorem regroups_filters {target : Expr} (childless : target.operands = []) :
    signs.Regroups Below Expr.bare (Filters (expr 0) target) (Filters (expr' 0) target) := by
  intro used value next reading node isBelow
  obtain ⟨child, member, isInside⟩ := isBelow
  cases reading with
  | none =>
    rw [childless] at member
    cases member
  | @some used values stop _ filters =>
    obtain ⟨used', ⟨values', stop'⟩, enclose, same, filters'⟩ :=
      regroups_arguments (within 0) (regroups 0) filters ⟨child, member, isInside⟩
    have same : values'.map Expr.bare = values.map Expr.bare := same
    refine ⟨used', _, enclose, ?_, .some filters'⟩
    rw [Expr.bare_node, Expr.bare_node, Form.map, Form.map, same]

/-- **Whatever lies below the root of an operand can be put in parentheses** if that holds of the
expressions inside. -/
theorem regroups_operand :
    signs.Regroups Below Expr.bare (Operand expr) (Operand expr') := by
  intro used value next reading node isBelow
  obtain ⟨child, member, isInside⟩ := id isBelow
  cases reading with
  | @leaf token form _ stated alone =>
    have member := Expr.mem_children_of_mem_operands member
    rw [Expr.children, Expr.form, children_of_leaf? stated] at member
    cases member
  | @measure token name used value _ named filters =>
    obtain ⟨used', value', enclose, same, filters'⟩ :=
      regroups_filters within regroups rfl filters isBelow
    exact ⟨token :: used', value', .behind token enclose, same, .measure named filters'⟩
  | @column table column tableName columnName used value _ tableNamed columnNamed filters =>
    obtain ⟨used', value', enclose, same, filters'⟩ :=
      regroups_filters within regroups rfl filters isBelow
    exact ⟨table :: column :: used', value', enclose.prepend [table, column], same,
      .column tableNamed columnNamed filters'⟩
  | @call token name used values stop _ named arguments =>
    obtain ⟨used', ⟨values', stop'⟩, enclose, same, arguments'⟩ :=
      regroups_arguments (within 0) (regroups 0) arguments ⟨child, member, isInside⟩
    have same : values'.map Expr.bare = values.map Expr.bare := same
    refine ⟨token :: used', _, .behind token enclose, ?_, .call named arguments'⟩
    rw [Expr.bare_node, Expr.bare_node, Form.map, Form.map, same]
  | @unary token operator used value _ sign operand =>
    obtain rfl := List.mem_singleton.mp member
    obtain ⟨used', value', enclose, same, operand'⟩ := regroups _ operand isInside
    refine ⟨token :: used', _, .behind token enclose, ?_, .unary sign operand'⟩
    rw [Expr.bare_node, Expr.bare_node, Form.map, Form.map, same]
  | @bindings word result used later values body _ opens items separates reading =>
    rcases List.mem_append.mp member with isValue | isBody
    · obtain ⟨binding, isBinding, rfl⟩ := List.mem_map.mp isValue
      obtain ⟨used', values', enclose, first, same, items'⟩ :=
        (regroups_binding (regroups 0)).repeated (Binding.mono (within 0)) _ items
          ⟨binding, isBinding, isInside⟩
      obtain ⟨others, rfl⟩ := List.head?_eq_some_iff.mp first
      refine ⟨word :: (others ++ result :: later), _, ?_, ?_,
        .bindings opens items' separates (within 0 reading)⟩
      · exact enclose.append (result :: later)
      · rw [Expr.bare_node, Expr.bare_node, Form.map, Form.map, same]
    · obtain rfl := List.mem_singleton.mp isBody
      obtain ⟨later', body', enclose, same, reading'⟩ := regroups 0 reading isInside
      refine ⟨word :: (used ++ result :: later'), _, ?_, ?_,
        .bindings opens (Repeated.mono (Binding.mono (within 0)) items) separates reading'⟩
      · exact .behind word ((enclose.prepend [result]).prepend used)
      · rw [Expr.bare_node, Expr.bare_node, Form.map, Form.map, same]
  | @group opening closing used value _ opens reading closes =>
    have isInside : node.FreeSubtree value := .under member isInside
    obtain ⟨used', value', enclose, same, reading'⟩ := regroups 0 reading isInside
    refine ⟨_, _, enclose.between opening closing, ?_, .group opens reading' closes⟩
    rw [Expr.bare_withSpan, Expr.bare_withSpan, same]
  | @tuple opening closing used first second others _ opens items closes =>
    obtain ⟨used', values', enclose, same, items'⟩ :=
      (regroups 0).separated (within 0) items ⟨child, member, isInside⟩
    obtain ⟨first', second', others', rfl⟩ :
        ∃ first' second' others', values' = first' :: second' :: others' := by
      obtain _ | ⟨first', _ | ⟨second', others'⟩⟩ := values'
      · simp at same
      · simp at same
      · exact ⟨first', second', others', rfl⟩
    refine ⟨_, _, enclose.between opening closing, ?_, .tuple opens items' closes⟩
    rw [Expr.bare_node, Expr.bare_node, Form.map, Form.map, same]
  | @table opening closing used rows _ opens items closes =>
    obtain ⟨row, isRow, member⟩ := List.mem_flatten.mp member
    obtain ⟨used', rows', enclose, same, items'⟩ :=
      regroups_tableRows (within 0) (regroups 0) items ⟨row, isRow, child, member, isInside⟩
    refine ⟨_, _, enclose.between opening closing, ?_, .table opens items' closes⟩
    rw [Expr.bare_node, Expr.bare_node, Form.map, Form.map, same]
  | @dataTable word outer opening closing last used later columns rows _ named opens heads some
      opensRows items closesRows closes =>
    obtain ⟨cell, member, present⟩ := List.mem_filterMap.mp member
    obtain ⟨row, isRow, member⟩ := List.mem_flatten.mp member
    obtain ⟨later', rows', enclose, same, items'⟩ :=
      (regroups_dataRow (within 0) (regroups 0) _).separatedUnless (DataRow.mono (within 0) _)
        (by decide) items ⟨row, isRow, cell, member, child, present, isInside⟩
    refine ⟨word :: outer :: (used ++ opening :: (later' ++ [closing, last])), _, ?_, ?_,
      .dataTable named opens heads some opensRows items' closesRows closes⟩
    · exact .behind word (.behind outer (((enclose.append _).prepend [opening]).prepend used))
    · rw [Expr.bare_node, Expr.bare_node, Form.map, Form.map, same]

end Operands

/-! ## Climbing -/

/-- A closing parenthesis ends all of an expression. -/
theorem operandRule_staysBefore_closing (levels : Nat) :
    (operandRule levels).StaysBefore (· = .symbol .rightParen) :=
  operandRule_staysBefore (by rintro _ rfl; rfl) (by rintro _ rfl; exact ⟨rfl, rfl⟩) levels

/-- Climbing does the same with an expression on the left that is the same up to spans. -/
theorem Climbing.congr {operand : Rule Expr} {level : Nat} {left left' whole : Expr}
    {used : List Token} {next : TokenKind}
    (reading : Climbing operand level left used whole next) (same : left'.bare = left.bare) :
    ∃ whole', whole'.bare = whole.bare ∧ Climbing operand level left' used whole' next := by
  induction reading generalizing left' with
  | done stops => exact ⟨left', same, .done stops⟩
  | step joins binds reading tighter _ _ ihOthers =>
    obtain ⟨whole', sameWhole, others'⟩ := ihOthers (Expr.bare_join same rfl _)
    exact ⟨whole', sameWhole, .step joins binds reading tighter others'⟩

/-- What is read up to a closing parenthesis is an operand in parentheses. -/
theorem enclosed_operand (signs : Parentheses) {levels : Nat} {own : List Token} {node : Expr}
    (reading : Expression (operandRule levels) 0 own node (.symbol .rightParen))
    (next : TokenKind) :
    operandRule (levels + 1) (signs.opening :: (own ++ [signs.closing]))
      (node.withSpan (signs.opening.span.cover signs.closing.span)) next :=
  Operand.group signs.opens (by rwa [signs.closes]) signs.closes

/-- Where a node may lie that climbing makes a part of the whole: in the expression on the left; or
in parentheses somewhere behind the first operator; or it is what the first tokens join to the
expression on the left, and climbing goes on from there. -/
inductive Climbed (signs : Parentheses) (levels level : Nat) (left : Expr) (used : List Token)
    (whole : Expr) (next : TokenKind) (node : Expr) : Prop where
  | inLeft (inside : node.FreeSubtree left)
  | behind {used' : List Token} {whole' : Expr} (enclose : signs.Enclose node used used')
      (first : used'.head? = used.head?) (same : whole'.bare = whole.bare)
      (reading : Climbing (operandRule (levels + 1)) level left used' whole' next)
  | joined {own after : List Token} (split : used = own ++ after)
      (front : Climbing (operandRule levels) 0 left own node (.symbol .rightParen))
      (rest : Climbing (operandRule levels) level node after whole next)

section Climbing

variable {levels : Nat}
  (regroups : signs.Regroups Expr.FreeSubtree Expr.bare (operandRule levels)
    (operandRule (levels + 1)))
include regroups

/-- An operand and what climbing joins to it, with parentheses around a node of the result. -/
theorem Climbed.expression {level : Nat} {first whole node : Expr} {used later : List Token}
    {next : TokenKind} (reading : operandRule levels used first (kindAfter later next))
    (others : Climbing (operandRule levels) level first later whole next)
    (climbed : Climbed signs levels level first later whole next node) :
    ∃ used' later' first' whole', signs.Enclose node (used ++ later) (used' ++ later') ∧
      whole'.bare = whole.bare ∧ operandRule (levels + 1) used' first' (kindAfter later' next) ∧
      Climbing (operandRule (levels + 1)) level first' later' whole' next := by
  have wider := operandRule_mono (Nat.le_succ levels)
  cases climbed with
  | inLeft inside =>
    obtain ⟨used', first', enclose, same, reading'⟩ := regroups reading inside
    obtain ⟨whole', sameWhole, others'⟩ := (Climbing.mono wider _ _ others).congr same
    exact ⟨used', later, first', whole', enclose.append later, sameWhole, reading', others'⟩
  | @behind later' whole' enclose first' same others' =>
    rw [← Parentheses.kindAfter_of_head? first'] at reading
    exact ⟨used, later', first, whole', enclose.prepend used, same, wider reading, others'⟩
  | @joined own after split front rest =>
    subst split
    have inside : Expression (operandRule levels) 0 (used ++ own) node (.symbol .rightParen) :=
      .intro ((operandRule_staysBefore_closing levels).keep reading rfl) front
    obtain ⟨whole', sameWhole, rest'⟩ :=
      (Climbing.mono wider _ _ rest).congr (Expr.bare_withSpan node _)
    refine ⟨_, after, _, whole', ?_, sameWhole, enclosed_operand signs inside _, rest'⟩
    simpa using Parentheses.Enclose.here after inside

/-- **Climbing does the same when a node is put in parentheses.** -/
theorem Climbing.climbed {level : Nat} {left whole : Expr} {used : List Token} {next : TokenKind}
    (reading : Climbing (operandRule levels) level left used whole next) {node : Expr}
    (inside : node.FreeSubtree whole) : Climbed signs levels level left used whole next node := by
  have wider := operandRule_mono (Nat.le_succ levels)
  induction reading with
  | done => exact .inLeft inside
  | @step level left first right whole sign operator used middle later next joins binds reading
      tighter others ihTighter ihOthers =>
    -- What goes on from the join goes on from the expression on the left by way of the operator.
    have joined {own after : List Token} (split : later = own ++ after)
        (front : Climbing (operandRule levels) 0 (left.join operator right) own node
          (.symbol .rightParen))
        (rest : Climbing (operandRule levels) level node after whole next) :
        Climbed signs levels level left (sign :: (used ++ (middle ++ later))) whole next node := by
      subst split
      have stays := operandRule_staysBefore_closing levels
      rw [← kindAfter_append, ← List.append_assoc] at reading
      have operandStays := stays.keep reading rfl
      rw [kindAfter_append] at operandStays
      have tighterStays :=
        (Climbing.staysBefore (by rintro _ rfl; rfl) stays _ _).keep tighter rfl
      have split : sign :: (used ++ (middle ++ (own ++ after))) =
          (sign :: (used ++ (middle ++ own))) ++ after := by simp
      exact .joined split (.step joins (Nat.zero_le _) operandStays tighterStays front) rest
    cases ihOthers inside with
    | @behind later' whole' enclose kept same others' =>
      have sameNext := Parentheses.kindAfter_of_head? kept next
      rw [← sameNext] at reading tighter
      refine .behind (.behind sign ((enclose.prepend middle).prepend used)) rfl same ?_
      exact .step joins binds (wider reading) (Climbing.mono wider _ _ tighter) others'
    | joined split front rest => exact joined split front rest
    | inLeft inJoin =>
      cases inJoin with
      | self => exact joined rfl (.doneBefore 0 _ rfl) others
      | under member inside =>
        rcases List.mem_cons.mp member with rfl | member
        · exact .inLeft inside
        · obtain rfl := List.mem_singleton.mp member
          obtain ⟨used', middle', first', right', enclose, same, reading', tighter'⟩ :=
            (ihTighter inside).expression regroups reading tighter
          obtain ⟨whole', sameWhole, others'⟩ :=
            (Climbing.mono wider _ _ others).congr (Expr.bare_join rfl same operator)
          have enclosed := (enclose.append later).behind sign
          simp only [List.append_assoc] at enclosed
          exact .behind enclosed rfl sameWhole (.step joins binds reading' tighter' others')

theorem regroups_expression (level : Nat) :
    signs.Regroups Expr.FreeSubtree Expr.bare (Expression (operandRule levels) level)
      (Expression (operandRule (levels + 1)) level) := by
  intro used whole next reading node inside
  cases reading with
  | intro reading others =>
    obtain ⟨used', later', first', whole', enclose, same, reading', others'⟩ :=
      (others.climbed regroups inside).expression regroups reading others
    exact ⟨used' ++ later', whole', enclose, same, .intro reading' others'⟩

end Climbing

/-! ## Everything together -/

/-- Any part of an operand can be put in parentheses, if one more level may be opened. -/
theorem regroups_operandRule (levels : Nat) :
    signs.Regroups Expr.FreeSubtree Expr.bare (operandRule levels) (operandRule (levels + 1)) := by
  induction levels with
  | zero =>
    intro _ _ _ reading
    cases reading
  | succ levels ih =>
    have wider := operandRule_mono (Nat.le_succ levels)
    intro used value next reading node inside
    cases inside with
    | self =>
      have alone := operandRule_staysBefore_closing _ reading rfl
      have whole : Expression (operandRule (levels + 1)) 0 used value (.symbol .rightParen) :=
        .of_operand alone rfl
      refine ⟨_, _, ?_, Expr.bare_withSpan value _, enclosed_operand signs whole next⟩
      simpa using Parentheses.Enclose.here [] whole
    | under member inside =>
      exact regroups_operand (fun level => Expression.mono wider level)
        (fun level => regroups_expression ih level) reading ⟨_, member, inside⟩

/-- **Any part of an expression can be put in parentheses**: the same expression is read up to
spans, with one level of nesting more. -/
theorem ExpressionOfLevel.regroups (signs : Parentheses) (level : Nat) :
    signs.Regroups Expr.FreeSubtree Expr.bare (ExpressionOfLevel level)
      (Expression (operandRule (maxNesting + 1)) level) :=
  regroups_expression (regroups_operandRule maxNesting) level

end Rule

end DaxScript
