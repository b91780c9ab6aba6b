import DaxScript.Proofs.Grammar.Neighbours
import DaxScript.Proofs.LosslessExpressions

/-!
# Where nothing stands in an expression

Of the tokens of every expression it is known how two of them stand side by side
(`Rule.ExpressionOfLevel.orderly`): nothing stands between them only where arguments, filters or
rows are left out all together or where a cell is left out of a row of data.

There is one lemma for each rule.  They all come down to what an expression begins and ends with,
since it never begins with the end of a position nor ends with the beginning of one.  The cells of a
row of data are the exception, and so the rows are known by themselves before the table around them
is (`InRowsOf`).
-/

set_option autoImplicit false

namespace DaxScript

open Production TokenOutline

namespace TokenKind

/-- A token ends no position if it can be something that no sign can be that ends one. -/
theorem closesPosition_of_can (can : TokenKind → Prop)
    (noSign : ∀ sign ∈ [Symbol.rightParen, .rightBrace, .comma], ¬can (.symbol sign))
    {kind : TokenKind} (holds : can kind) : kind.closesPosition = false := by
  cases kind with
  | symbol sign =>
    cases sign
    case rightParen | rightBrace | comma => exact absurd holds (noSign _ (by decide))
    all_goals rfl
  | _ => rfl

theorem endsSomething_of_endsOperand {kind : TokenKind} (ends : Rule.endsOperand kind = true) :
    kind.endsSomething = true := by
  cases kind with
  | symbol sign => cases sign <;> first | rfl | cases ends
  | keyword word => cases word <;> first | rfl | cases ends
  | _ => rfl

theorem endsSomething_of_functionName? {kind : TokenKind} {name : String}
    (named : kind.functionName? = some name) : kind.endsSomething = true := by
  cases kind with
  | symbol => cases named
  | keyword word => cases word <;> first | rfl | cases named
  | _ => rfl

theorem ne_dataTable_of_ofKind? {kind : TokenKind} {operator : UnaryOperator}
    (sign : UnaryOperator.ofKind? kind = some operator) : kind ≠ keyword .dataTable := by
  rintro rfl
  cases sign

theorem endsSomething_of_isBinary {kind : TokenKind} {operator : BinaryOperator}
    (joins : BinaryOperator.ofKind? kind = some operator) : kind.endsSomething = true := by
  cases kind with
  | symbol sign => cases sign <;> first | rfl | cases joins
  | keyword word => cases word <;> first | rfl | cases joins
  | _ => rfl

end TokenKind

namespace Rule

variable {α : Type}

/-! ## First tokens -/

theorem Operand.begins {expr : Nat → Rule Expr} {used : List Token} {value : Expr}
    {next : TokenKind} (reading : Operand expr used value next) : BeginsSomething used := by
  cases reading with
  | leaf stated =>
    exact ⟨_, _, rfl,
      TokenKind.closesPosition_of_can (·.leaf? = some _) (by simp [TokenKind.leaf?]) stated⟩
  | measure named => exact ⟨_, _, rfl, by rw [named]; rfl⟩
  | @column table _ tableName _ _ _ _ tableNamed =>
    refine ⟨_, _, rfl, ?_⟩
    cases kind : table.kind with
    | symbol => simp [Token.tableName?, kind] at tableNamed
    | _ => rfl
  | call named =>
    exact ⟨_, _, rfl, TokenKind.closesPosition_of_can (·.functionName? = some _)
      (by simp [TokenKind.functionName?]) named⟩
  | unary sign =>
    exact ⟨_, _, rfl, TokenKind.closesPosition_of_can (UnaryOperator.ofKind? · = some _)
      (by simp [UnaryOperator.ofKind?]) sign⟩
  | bindings opens => exact ⟨_, _, rfl, by rw [opens]; rfl⟩
  | group opens => exact ⟨_, _, rfl, by rw [opens]; rfl⟩
  | tuple opens => exact ⟨_, _, rfl, by rw [opens]; rfl⟩
  | table opens => exact ⟨_, _, rfl, by rw [opens]; rfl⟩
  | dataTable named => exact ⟨_, _, rfl, by rw [named]; rfl⟩

/-! ## Items with commas between them -/

/-- Around some part of one of several values. -/
def InSome (inside : α → Surroundings) (values : List α) : Surroundings :=
  fun form start stop => ∃ value ∈ values, inside value form start stop

theorem within_head (inside : α → Surroundings) (value : α) (values : List α) :
    (inside value).Within (InSome inside (value :: values)) :=
  fun _ _ _ _ around => ⟨value, .head _, around⟩

theorem within_tail (inside : α → Surroundings) (value : α) (values : List α) :
    (InSome inside values).Within (InSome inside (value :: values)) :=
  fun _ _ _ _ ⟨other, member, around⟩ => ⟨other, .tail _ member, around⟩

/-- What is around some part of a child is around some part of the node. -/
theorem within_child {source : List Token} {expr child : Expr} (member : child ∈ expr.children) :
    Surroundings.Within (child.HasAround source) (expr.HasAround source) :=
  fun _ _ _ _ around => around.of_child member

theorem within_children {source : List Token} {expr : Expr} {values : List Expr}
    (among : ∀ value ∈ values, value ∈ expr.children) :
    (InSome (Expr.HasAround source) values).Within (expr.HasAround source) :=
  fun _ _ _ _ ⟨value, member, around⟩ => around.of_child (among value member)

/-- What is known of the tokens that a rule reads: behind them anything may stand. -/
structure Orders (source : List Token) (inside : α → Surroundings) (inRow : List Token → Prop)
    (rule : Rule α) : Prop where
  ends : ∀ ⦃used : List Token⦄ ⦃value : α⦄ ⦃next : TokenKind⦄, rule used value next →
    EndsSomething used
  orderly : ∀ ⦃used : List Token⦄ ⦃value : α⦄ ⦃next : TokenKind⦄, rule used value next →
    Stretch source used → Orderly (inside value) inRow used

/-- What is known of them if they can fill a position. -/
structure Fills (source : List Token) (inside : α → Surroundings) (inRow : List Token → Prop)
    (rule : Rule α) : Prop extends Orders source inside inRow rule where
  begins : ∀ ⦃used : List Token⦄ ⦃value : α⦄ ⦃next : TokenKind⦄, rule used value next →
    BeginsSomething used

section Repetition

variable {source : List Token} {inside : α → Surroundings} {inRow : List Token → Prop}
  {item : Rule α}

/-- A repetition ends as its last item does. -/
theorem Orders.repeated_ends (orders : item.Orders source inside inRow)
    {continues : TokenKind → Bool} {used : List Token} {values : List α} {next : TokenKind}
    (reading : Repeated continues item used values next) : used = [] ∨ EndsSomething used := by
  induction reading with
  | done => exact .inl rfl
  | more _ reading _ ih =>
    rcases ih with rfl | ends
    · rw [List.append_nil]
      exact .inr (orders.ends reading)
    · exact .inr (ends.behind _)

variable (stays : ∀ {tokens front}, Nested tokens → inRow front → inRow (tokens ++ front))
include stays

theorem Orders.repeated (orders : item.Orders source inside inRow) (nests : item.Nests)
    {continues : TokenKind → Bool} {used : List Token} {values : List α} {next : TokenKind}
    (reading : Repeated continues item used values next) (stretch : Stretch source used) :
    Orderly (InSome inside values) inRow used := by
  induction reading with
  | done => exact .nil
  | @more used later value values next _ reading _ ih =>
    have own := (orders.orderly reading stretch.left).mono
      (within_head inside value values) fun _ inside => inside
    have others := (ih stretch.right).mono
      (within_tail inside value values) fun _ inside => inside
    exact own.append_of_ends (orders.ends reading) others fun _ => stays (nests reading)

theorem Fills.afterComma (fills : item.Fills source inside inRow) :
    (AfterComma item).Orders source inside inRow where
  ends := by
    intro used value next reading
    cases reading with
    | @intro comma _ _ _ _ reading => exact (fills.ends reading).behind [comma]
  orderly := by
    intro used value next reading stretch
    cases reading with
    | @intro comma used _ _ sign reading =>
      have isPlain : isPlain comma.kind = true := by rw [sign]; rfl
      exact .cons_of_begins (by simp [sign]) (fills.begins reading)
        (fills.orderly reading stretch.tail) fun _ => stays (.plain isPlain)

theorem Fills.separated (fills : item.Fills source inside inRow) (nests : item.Nests) :
    (Separated item).Fills source (InSome inside) inRow where
  begins := by
    intro used values next reading
    cases reading with
    | intro reading => exact (fills.begins reading).inFront _
  ends := by
    intro used values next reading
    cases reading with
    | intro reading others =>
      rcases (fills.afterComma stays).repeated_ends others with rfl | ends
      · rw [List.append_nil]
        exact fills.ends reading
      · exact ends.behind _
  orderly := by
    intro used values next reading stretch
    cases reading with
    | @intro used later value values _ reading others =>
      have own := (fills.orderly reading stretch.left).mono
        (within_head inside value values) fun _ inside => inside
      have others := ((fills.afterComma stays).repeated stays (AfterComma.nests nests) others
        stretch.right).mono (within_tail inside value values) fun _ inside => inside
      exact own.append_of_ends (fills.ends reading) others fun _ => stays (nests reading)

end Repetition

/-- What is in a row is in the element that makes the row. -/
theorem within_row {source : List Token} {value : Expr} {row : List Expr}
    (isRow : value.row? = some row) :
    Surroundings.Within (value.HasAround source) (InSome (Expr.HasAround source) row) := by
  intro form start stop noTuple around
  obtain ⟨own, span⟩ := value
  cases own with
  | tuple values =>
    obtain rfl := Option.some.inj isRow
    obtain ⟨node, inside, isForm, bounds⟩ := around
    rcases inside.eq_or_below with rfl | ⟨child, member, inside⟩
    · exact absurd isForm.symm (noTuple values)
    · exact ⟨child, member, node, inside, isForm, bounds⟩
  | table => cases isRow
  | _ =>
    obtain rfl := Option.some.inj isRow
    exact ⟨_, .head _, around⟩

/-- The rows of a table, if there are any, are items with commas between them. -/
theorem TableRows.cases {expr : Rule Expr} {used : List Token} {rows : List (List Expr)}
    {next : TokenKind} (reading : TableRows expr used rows next) :
    used = [] ∨ Separated (TableRow expr Option.none) used rows next := by
  cases reading with
  | none => exact .inl rfl
  | @some used later row rows _ _ first others =>
    have within : (TableRow expr (Option.some row.length)).Within (TableRow expr Option.none) := by
      intro used row next reading
      cases reading with
      | intro reading isRow => exact .intro reading isRow nofun
    exact .inr (.intro first (Repeated.mono (.mono within) others))

section Parts

variable {source : List Token} {expr : Rule Expr}
  (fills : expr.Fills source (Expr.HasAround source) InDataRow) (nests : expr.Nests)
include fills

/-- A name that arguments may follow in front of them. -/
theorem orderly_arguments {found : Surroundings} {token : Token} {used : List Token}
    {values : List Expr} {stop : Nat} {next : TokenKind} (nests : expr.Nests)
    (reading : Arguments expr used (values, stop) next) (stretch : Stretch source used)
    (within : (InSome (Expr.HasAround source) values).Within found)
    (ends : token.kind.endsSomething = true)
    (empty : values = [] → ∀ opening closing : Token, opening.kind = .symbol .leftParen →
      closing.kind = .symbol .rightParen → closing.span.stop = stop →
        Gap found InDataRow [token] opening closing) :
    Orderly found InDataRow (token :: used) := by
  cases reading with
  | @intro opening closing used values _ opens items closes =>
    cases items with
    | none =>
      have front : Orderly found InDataRow [token, opening] := .behindEnd ends .single
      have whole : Orderly found InDataRow ([token, opening] ++ [closing]) := by
        refine front.append .single (fun _ (inside : InDataRow _) => inside.behind _)
          fun others first second after split same => ?_
        have split : [token] ++ [opening] = others ++ [first] := split
        obtain ⟨rfl, isFirst⟩ := List.append_inj' split rfl
        obtain rfl := List.singleton_inj.mp isFirst
        obtain ⟨rfl, _⟩ := List.cons.inj same
        exact ⟨fun _ _ => empty rfl _ _ opens closes rfl, fun table => by simp [opens] at table⟩
      exact whole
    | some _ items =>
      have separated := fills.separated (fun _ inside => inside.behind _) nests
      have inner := (separated.orderly items stretch.tail.left).mono within fun _ inside => inside
      exact .behindEnd ends
        (.enclosed (by simp [opens]) (separated.begins items) (separated.ends items) inner)

theorem fills_binding :
    (Binding expr).Fills source (fun binding => binding.2.HasAround source) InDataRow where
  begins := by
    intro used binding next reading
    cases reading with
    | intro opens => exact ⟨_, _, rfl, by rw [opens]; rfl⟩
  ends := by
    intro used binding next reading
    cases reading with
    | @intro word symbol equals _ _ _ _ _ _ _ reading =>
      exact (fills.ends reading).behind [word, symbol, equals]
  orderly := by
    intro used binding next reading stretch
    cases reading with
    | @intro word symbol equals name used value _ opens named sign reading =>
      have inner := fills.orderly reading stretch.tail.tail.tail
      have equalsBegins : BeginsSomething (equals :: used) := ⟨_, _, rfl, by rw [sign]; rfl⟩
      have symbolBegins : BeginsSomething (symbol :: equals :: used) :=
        ⟨_, _, rfl, by rw [named]; rfl⟩
      exact .behindToken (by simp [opens]) symbolBegins (.behindToken (by simp [named]) equalsBegins
        (.behindToken (by simp [sign]) (fills.begins reading) inner))

theorem fills_tableRow (width? : Option Nat) :
    (TableRow expr width?).Fills source (InSome (Expr.HasAround source)) InDataRow where
  begins := by
    intro used row next reading
    cases reading with
    | intro reading => exact fills.begins reading
  ends := by
    intro used row next reading
    cases reading with
    | intro reading => exact fills.ends reading
  orderly := by
    intro used row next reading stretch
    cases reading with
    | intro reading isRow =>
      exact (fills.orderly reading stretch).mono (within_row isRow) fun _ inside => inside

include nests

theorem orderly_table {opening closing : Token} {used : List Token} {rows : List (List Expr)}
    (opens : opening.kind = .symbol .leftBrace) (reading : TableRows expr used rows closing.kind)
    (closes : closing.kind = .symbol .rightBrace) (stretch : Stretch source used) :
    Orderly (InSome (InSome (Expr.HasAround source)) rows) InDataRow
      (opening :: (used ++ [closing])) := by
  rcases reading.cases with rfl | items
  · have alone : Orderly (InSome (InSome (Expr.HasAround source)) rows) InDataRow [closing] :=
      .single
    refine .cons alone (fun _ inside => inside.behind [opening]) fun second after same => ?_
    obtain ⟨rfl, _⟩ := List.cons.inj same
    exact ⟨fun _ _ => .braces opens closes, fun table => by simp [opens] at table⟩
  · have separated := (fills_tableRow fills none).separated
      (fun _ inside => inside.behind _) (TableRow.nests nests none)
    exact .enclosed (by simp [opens]) (separated.begins items) (separated.ends items)
      (separated.orderly items stretch)

end Parts

/-! ## Rows of data -/

/-- What is in front of a place among the rows of a table of data, given what stands behind the
brace in front of them. -/
inductive InRowsOf : List Token → Prop where
  | outer {front : List Token} (inside : InDataRow front) : InRowsOf front
  | row {rows inner : List Token} {row : Token} (rowsBalanced : Balanced rows)
      (opens : row.kind = .symbol .leftBrace) (balanced : Balanced inner) :
      InRowsOf (rows ++ row :: inner)

/-- What is in front of a place among the cells of a row, given what stands behind its brace. -/
def InCellsOf (front : List Token) : Prop :=
  InDataRow front ∨ Balanced front

theorem InCellsOf.behind {tokens front : List Token} (nested : Nested tokens)
    (inside : InCellsOf front) : InCellsOf (tokens ++ front) :=
  inside.imp (·.behind tokens) nested.balanced.append

theorem InRowsOf.behind {tokens front : List Token} (nested : Nested tokens)
    (inside : InRowsOf front) : InRowsOf (tokens ++ front) := by
  cases inside with
  | outer inside => exact .outer (inside.behind tokens)
  | row rowsBalanced opens balanced =>
    rw [← List.append_assoc]
    exact .row (nested.balanced.append rowsBalanced) opens balanced

/-- The rows of a table of data are rows of data. -/
theorem InRowsOf.inDataRow {word outer opening : Token} {heads front : List Token}
    (named : word.kind = .keyword .dataTable) (opens : outer.kind = .symbol .leftParen)
    (plain : ∀ head ∈ heads, isPlain head.kind = true)
    (opensRows : opening.kind = .symbol .leftBrace) (inside : InRowsOf front) :
    InDataRow (word :: (outer :: (heads ++ [opening]) ++ front)) := by
  cases inside with
  | outer inside => exact inside.behind (word :: outer :: (heads ++ [opening]))
  | @row rows inner row rowsBalanced opensRow balanced =>
    obtain ⟨index, counts⟩ := Nat.exists_eq_add_one.mpr
      (List.length_pos_of_ne_nil (positions_ne_nil 0 rows))
    have opened : OpensDataRow word index
        ([] ++ word :: outer :: (heads ++ opening :: (rows ++ [row]))) :=
      .intro named opens plain opensRows rowsBalanced counts opensRow
    have whole := InDataRow.intro opened balanced
    simpa using whole

/-- Around some part of a cell that is not left out. -/
def InCell (source : List Token) (cell : Option Expr) : Surroundings :=
  fun form start stop => ∃ value ∈ cell, value.HasAround source form start stop

section Data

variable {source : List Token} {expr : Rule Expr}
  (fills : expr.Fills source (Expr.HasAround source) InDataRow)
include fills

/-- A cell between the signs that delimit its position. -/
theorem orderly_cell {found : Surroundings} {inRow : List Token → Prop} {sign second : Token}
    {used after : List Token} {cell : Option Expr} {next : TokenKind}
    (opens : sign.kind = .symbol .leftBrace ∨ sign.kind = .symbol .comma)
    (reading : DataCell expr used cell next) (stretch : Stretch source used)
    (closes : second.kind = .symbol .rightBrace ∨ second.kind = .symbol .comma)
    (within : (InCell source cell).Within found)
    (others : Orderly found InCellsOf (second :: after))
    (here : inRow [sign]) (outer : ∀ front, InDataRow front → inRow (sign :: front))
    (stays : ∀ front, InCellsOf front → inRow (sign :: (used ++ front))) :
    Orderly found inRow (sign :: (used ++ second :: after)) := by
  have noTable : sign.kind ≠ .keyword .dataTable := by
    rcases opens with brace | comma
    · simp [brace]
    · simp [comma]
  cases reading with
  | absent =>
    refine .cons others stays fun first rest same => ?_
    obtain ⟨rfl, _⟩ := List.cons.inj same
    exact ⟨fun _ _ => .cell opens closes here, fun table => absurd table noTable⟩
  | @present used value next _ reading =>
    have own : Orderly found (fun front => inRow (sign :: front)) used := by
      refine (fills.orderly reading stretch).mono (fun form start stop noTuple around => ?_) outer
      exact within noTuple ⟨value, rfl, around⟩
    exact .cons_of_begins noTable ((fills.begins reading).inFront _)
      (own.append_of_ends (fills.ends reading) others stays) fun _ inside => inside

variable (nests : expr.Nests)
include nests

/-- The cells behind the first one of a row, up to the brace that closes the row. -/
theorem orderly_cells {later : List Token} {cells : List (Option Expr)} {closing : Token}
    (reading : CommaSeparated (DataCell expr) later cells closing.kind)
    (stretch : Stretch source later)
    (closes : closing.kind = .symbol .rightBrace) :
    ∃ second after, later ++ [closing] = second :: after ∧
      (second.kind = .symbol .rightBrace ∨ second.kind = .symbol .comma) ∧
      Orderly (InSome (InCell source) cells) InCellsOf (later ++ [closing]) := by
  generalize isNext : closing.kind = next at reading
  induction reading with
  | done => exact ⟨closing, [], rfl, .inl closes, .single⟩
  | @more used later value values next _ reading _ ih =>
    cases reading with
    | @intro comma used _ _ sign reading =>
      obtain ⟨second, after, isRest, ends, orderly⟩ := ih stretch.right isNext
      have nested : Nested (comma :: used) :=
        .cons (by rw [sign]; rfl) (DataCell.nests nests reading)
      have others := orderly.mono (within_tail (InCell source) value values) fun _ inside => inside
      rw [isRest] at others
      rw [List.append_assoc, isRest]
      refine ⟨comma, used ++ second :: after, rfl, .inr sign, ?_⟩
      refine orderly_cell fills (.inr sign) reading stretch.left.tail ends
        (within_head (InCell source) value values) others (.inr ?_) (fun _ inside => ?_) fun _ => ?_
      · rw [Balanced, List.map_singleton, sign]
        rfl
      · exact .inl (inside.behind [comma])
      · exact InCellsOf.behind nested

theorem fills_dataRow (width : Nat) :
    (DataRow expr width).Fills source (InSome (InCell source)) InRowsOf where
  begins := by
    intro used cells next reading
    cases reading with
    | intro opens => exact ⟨_, _, rfl, by rw [opens]; rfl⟩
  ends := by
    intro used cells next reading
    cases reading with
    | @intro opening closing used _ _ _ _ closes =>
      exact ⟨opening :: used, closing, rfl, by rw [closes]; rfl⟩
  orderly := by
    intro used cells next reading stretch
    cases reading with
    | @intro opening closing used cells _ opens items closes =>
      cases items with
      | @intro own later cell cells _ reading others =>
        have nested := DataCell.nests nests reading
        have inside := stretch.tail.left
        obtain ⟨second, after, isRest, ends, orderly⟩ :=
          orderly_cells fills nests others inside.right closes
        have orderly := orderly.mono (within_tail (InCell source) cell cells) fun _ inside => inside
        rw [isRest] at orderly
        rw [List.append_assoc, isRest]
        refine orderly_cell fills (.inl opens) reading inside.left ends
          (within_head (InCell source) cell cells) orderly ?_ (fun _ inside => ?_)
          fun front inside => ?_
        · show InRowsOf ([] ++ opening :: [])
          exact .row rfl opens rfl
        · exact .outer (inside.behind [opening])
        · rcases inside.behind nested with inside | balanced
          · exact .outer (inside.behind [opening])
          · show InRowsOf ([] ++ opening :: (own ++ front))
            exact .row rfl opens balanced

end Data

/-! ## Tables of data -/

theorem orderly_columns {used : List Token} {columns : List Column} {next : TokenKind}
    {continues : TokenKind → Bool} {found : Surroundings}
    (reading : Repeated continues DataColumn used columns next) {opening : Token}
    (opens : opening.kind = .symbol .leftBrace) :
    Orderly found InDataRow (used ++ [opening]) ∧ BeginsSomething (used ++ [opening]) ∧
      ∀ head ∈ used, isPlain head.kind = true := by
  induction reading with
  | done => exact ⟨.single, ⟨opening, [], rfl, by rw [opens]; rfl⟩, nofun⟩
  | @more used later value values next _ reading _ ih =>
    obtain ⟨orderly, begins, plain⟩ := ih
    cases reading with
    | @intro text between word after name spelling type _ named comma typed _ comma' =>
      have third : Orderly found InDataRow (after :: (later ++ [opening])) :=
        .behindToken (by simp [comma']) begins orderly
      have second : Orderly found InDataRow (between :: word :: after :: (later ++ [opening])) :=
        .behindToken (by simp [comma]) ⟨_, _, rfl, by rw [typed]; rfl⟩
          (.behindEnd (by rw [typed]; rfl) third)
      refine ⟨.behindEnd (by rw [named]; rfl) second, ⟨_, _, rfl, by rw [named]; rfl⟩, ?_⟩
      simp only [List.cons_append, List.nil_append, List.forall_mem_cons]
      exact ⟨by rw [named]; rfl, by rw [comma]; rfl, by rw [typed]; rfl, by rw [comma']; rfl, plain⟩

section Data

variable {source : List Token} {expr : Rule Expr}
  (fills : expr.Fills source (Expr.HasAround source) InDataRow) (nests : expr.Nests)
  (spanned : expr.Spanned) (whole : expr.StandsWhole)
include fills nests spanned whole

omit spanned whole in
/-- The rows up to the end of their table, known from the brace in front of them on. -/
theorem orderly_dataRows {closing : Token} {later : List Token}
    {rows : List (List (Option Expr))} {width : Nat} {found : Surroundings}
    (items : SeparatedUnless .rightBrace (DataRow expr width) later rows closing.kind)
    (closes : closing.kind = .symbol .rightBrace) (stretch : Stretch source later)
    (within : (InSome (InSome (InCell source)) rows).Within found) (last : Token) :
    Orderly found InRowsOf (later ++ [closing, last]) ∧
      ∃ second after, later ++ [closing, last] = second :: after ∧
        (second.kind = .symbol .rightBrace ∨ second.kind.closesPosition = false) := by
  have alone : Orderly found (fun _ => False) [last] := .single
  have ending : Orderly found InRowsOf [closing, last] :=
    .cons alone nofun fun _ _ _ => .of_ends (by rw [closes]; rfl)
  cases items with
  | none => exact ⟨ending, closing, [last], rfl, .inl closes⟩
  | some _ items =>
    have nested := DataRow.nests nests width
    have separated := (fills_dataRow fills nests width).separated InRowsOf.behind nested
    have own := (separated.orderly items stretch).mono within fun _ inside => inside
    obtain ⟨first, others, isFirst, begins⟩ := (separated.begins items).inFront [closing, last]
    exact ⟨own.append_of_ends (separated.ends items) ending
      fun _ => InRowsOf.behind (Separated.nests nested items), first, others, isFirst, .inr begins⟩

theorem orderly_dataTable {word outer opening closing last : Token} {used later : List Token}
    {columns : List Column} {rows : List (List (Option Expr))} {width : Nat} {found : Surroundings}
    (named : word.kind = .keyword .dataTable) (opens : outer.kind = .symbol .leftParen)
    (heads : Repeated (!isSymbol .leftBrace ·) DataColumn used columns opening.kind)
    (opensRows : opening.kind = .symbol .leftBrace)
    (items : SeparatedUnless .rightBrace (DataRow expr width) later rows closing.kind)
    (closesRows : closing.kind = .symbol .rightBrace)
    (stretch : Stretch source (word :: outer :: (used ++ opening :: (later ++ [closing, last]))))
    (within : (InSome (InSome (InCell source)) rows).Within found)
    (around : found (.dataTable columns rows) word.span.start last.span.stop) :
    Orderly found InDataRow (word :: outer :: (used ++ opening :: (later ++ [closing, last]))) := by
  have inside : Stretch source (later ++ [closing, last]) := stretch.tail.tail.right.tail
  have laid := dataRows_laid spanned nests whole items inside.left.inOrder
  have among : ∀ token ∈ later, token.span.stop ≤ last.span.stop := fun token member =>
    Nat.le_trans (inside.inOrder.stop_le member (.tail _ (.head _)))
      (inside.right.inOrder.forward last (.tail _ (.head _)))
  obtain ⟨columnsOrderly, columnsBegin, plain⟩ : Orderly found InDataRow (used ++ [opening]) ∧ _ :=
    orderly_columns heads opensRows
  obtain ⟨rowsOrderly, second, after, isRest, begins⟩ :=
    orderly_dataRows fills nests items closesRows inside.left within last
  have front : Orderly found InDataRow (outer :: (used ++ [opening])) :=
    .behindToken (by simp [opens]) columnsBegin columnsOrderly
  have table : Orderly found (fun front => InDataRow (word :: front))
      ((outer :: (used ++ [opening])) ++ (later ++ [closing, last])) := by
    refine (front.mono (fun _ _ _ _ around => around) fun _ inside => inside.behind [word]).append
      rowsOrderly (fun _ inside => inside.inDataRow named opens plain opensRows)
      fun others first second' after' split same => ?_
    have split : (outer :: used) ++ [opening] = others ++ [first] := split
    obtain ⟨_, isFirst⟩ := List.append_inj' split rfl
    obtain rfl := List.singleton_inj.mp isFirst
    obtain ⟨rfl, _⟩ := List.cons.inj (isRest.symm.trans same)
    rcases begins with closes | begins
    · exact ⟨fun _ _ => .braces opensRows closes, fun table => by simp [opensRows] at table⟩
    · exact .of_begins (by simp [opensRows]) begins
  have orderly : Orderly found InDataRow
      (word :: ((outer :: (used ++ [opening])) ++ (later ++ [closing, last]))) := by
    refine .cons table (fun _ inside => inside) fun second after same =>
      ⟨fun opens => ?_, fun _ _ => ?_⟩
    · rw [named] at opens
      cases opens
    · have split : outer :: (used ++ opening :: (later ++ [closing, last])) = second :: after := by
        simpa using same
      obtain ⟨_, rfl⟩ := List.cons.inj split
      exact .intro plain opensRows laid closesRows among around
  simpa using orderly

end Data

/-! ## Operands -/

/-- A measure or a column, of which the last token is given, and what it is filtered by. -/
theorem Filters.orderly {source : List Token} {expr : Rule Expr}
    (fills : expr.Fills source (Expr.HasAround source) InDataRow) (nests : expr.Nests)
    {target value : Expr} {token : Token} {name : String} {used : List Token} {next : TokenKind}
    (reading : Filters expr target used value next)
    (named : token.kind = .bracketName name) (starts : target.span.start ≤ token.span.start)
    (stretch : Stretch source used) :
    Orderly (value.HasAround source) InDataRow (token :: used) := by
  cases reading with
  | none => exact .single
  | @some used values stop _ filters =>
    refine orderly_arguments fills nests filters stretch ?_ (by rw [named]; rfl) ?_
    · exact within_children fun filter member => List.mem_cons_of_mem _ member
    · rintro rfl opening closing opens closes rfl
      have alone : [token] = [] ++ [token] := rfl
      exact .filters alone named opens closes starts (.self rfl (Nat.le_refl _))

theorem Operand.orderly {source : List Token} {expr : Nat → Rule Expr}
    (fills : ∀ level, (expr level).Fills source (Expr.HasAround source) InDataRow)
    (nests : ∀ level, (expr level).Nests) (spanned : ∀ level, (expr level).Spanned)
    (whole : ∀ level, (expr level).StandsWhole) {used : List Token} {value : Expr}
    {next : TokenKind} (reading : Operand expr used value next) (stretch : Stretch source used) :
    Orderly (value.HasAround source) InDataRow used := by
  have covered := Operand.spanned spanned reading stretch.inOrder
  have separated := (fills 0).separated (fun _ inside => inside.behind _) (nests 0)
  cases reading with
  | leaf => exact .single
  | measure named filters =>
    exact Filters.orderly (fills 0) (nests 0) filters named (Nat.le_refl _) stretch.tail
  | @column table column tableName columnName used value _ tableNamed columnNamed filters =>
    have inner := Filters.orderly (fills 0) (nests 0) filters columnNamed
      (Nat.min_le_right _ _) stretch.tail.tail
    refine .cons inner (fun _ inside => inside.behind [table]) fun second after same => ?_
    obtain ⟨rfl, _⟩ := List.cons.inj same
    exact .of_isPlain (by simp [columnNamed]) (by rw [columnNamed]; rfl)
  | @call token name used values stop _ named arguments =>
    refine orderly_arguments (fills 0) (nests 0) arguments stretch.tail (within_children ?_)
      (TokenKind.endsSomething_of_functionName? named) ?_
    · exact fun argument member => member
    · rintro rfl opening closing opens closes rfl
      have alone : [token] = [] ++ [token] := rfl
      exact .arguments alone named opens closes (.self rfl (Nat.le_refl _))
  | @unary token operator used value _ sign operand =>
    have inner := (fills _).orderly operand stretch.tail
    exact .behindToken (TokenKind.ne_dataTable_of_ofKind? sign) ((fills _).begins operand)
      (inner.mono (within_child (.head _)) fun _ inside => inside)
  | @bindings word result used later values body _ opens items separates reading =>
    have bindings := fills_binding (fills 0)
    have stretch : Stretch source ((word :: used) ++ result :: later) := stretch
    have front := bindings.repeated (fun _ inside => inside.behind _) (Binding.nests (nests 0))
      items stretch.left
    have ends := (bindings.repeated_ends items).resolve_left (List.cons_ne_nil _ _)
    have behind := (fills 0).orderly reading stretch.right.tail
    have bodyBehind : Orderly (body.HasAround source) InDataRow (result :: later) :=
      .behindToken (by simp [separates]) ((fills 0).begins reading) behind
    refine .behindSomething ends (front.mono ?_ fun _ inside => inside)
      (bodyBehind.mono (within_child ?_) fun _ inside => inside)
    · rintro form start stop _ ⟨binding, member, around⟩
      exact around.of_child (List.mem_append_left _ (List.mem_map_of_mem member))
    · exact List.mem_append_right _ (List.mem_singleton_self body)
  | @group opening closing used value _ opens reading closes =>
    have inner := (fills 0).orderly reading stretch.tail.left
    have valueCovered := spanned 0 reading stretch.tail.left.inOrder
    have bounds := covered.within stretch.inOrder valueCovered fun token member =>
      .tail _ (List.mem_append_left _ member)
    obtain ⟨first, others, rfl, _⟩ := id ((fills 0).begins reading)
    have parens := stretch.onlyParens opens
    rw [← valueCovered.start_eq, ← covered.start_eq] at parens
    refine .enclosed (by simp [opens]) ((fills 0).begins reading) ((fills 0).ends reading)
      (inner.mono (fun form start stop _ around => ?_) fun _ inside => inside)
    exact around.withSpan parens bounds.2
  | @tuple opening closing used first second others _ opens items closes =>
    have inner := separated.orderly items stretch.tail.left
    exact .enclosed (by simp [opens]) (separated.begins items) (separated.ends items)
      (inner.mono (within_children fun value member => member) fun _ inside => inside)
  | @table opening closing used rows _ opens items closes =>
    refine (orderly_table (fills 0) (nests 0) opens items closes stretch.tail.left).mono ?_
      fun _ inside => inside
    rintro form start stop _ ⟨row, isRow, cell, isCell, around⟩
    exact around.of_child (List.mem_flatten.mpr ⟨row, isRow, isCell⟩)
  | @dataTable word outer opening closing last used later columns rows _ named opens heads some
      opensRows items closesRows closes =>
    refine orderly_dataTable (fills 0) (nests 0) (spanned 0) (whole 0) named opens heads opensRows
      items closesRows stretch ?_ (.self covered.start_eq (Nat.le_max_right _ _))
    rintro form start stop _ ⟨row, isRow, cell, isCell, value, isValue, around⟩
    refine around.of_child (List.mem_filterMap.mpr ⟨cell, ?_, isValue⟩)
    exact List.mem_flatten.mpr ⟨row, isRow, isCell⟩

/-! ## Expressions -/

section Expressions

variable {source : List Token} {operand : Rule Expr}
  (fills : operand.Fills source (Expr.HasAround source) InDataRow)
include fills

/-- What is joined to an expression on the left is known together with it. -/
theorem Climbing.orderly {level : Nat} {left whole : Expr} {before used : List Token}
    {next : TokenKind} (reading : Climbing operand level left used whole next)
    (known : Orderly (left.HasAround source) InDataRow before) (ends : EndsSomething before)
    (stretch : Stretch source used) :
    Orderly (whole.HasAround source) InDataRow (before ++ used) ∧
      EndsSomething (before ++ used) := by
  induction reading generalizing before with
  | done =>
    rw [List.append_nil]
    exact ⟨known, ends⟩
  | @step level left first right whole sign operator used middle later next joins _ reading
      tighter others ihTighter ihOthers =>
    have inner := stretch.tail
    obtain ⟨rightKnown, rightEnds⟩ := ihTighter (fills.orderly reading inner.left)
      (fills.ends reading) inner.right.left
    have joined : Orderly ((left.join operator right).HasAround source) InDataRow
        (before ++ sign :: (used ++ middle)) := by
      refine .behindSomething ends (known.mono (within_child (.head _)) fun _ inside => inside) ?_
      have rightChild : right ∈ (left.join operator right).children := .tail _ (.head _)
      exact .behindEnd (TokenKind.endsSomething_of_isBinary joins)
        (rightKnown.mono (within_child rightChild) fun _ inside => inside)
    have whole := ihOthers joined ((rightEnds.behind [sign]).behind before) inner.right.right
    simpa using whole

end Expressions

/-- An operand that can fill a position is followed by what can fill it as well. -/
theorem expression_fills {source : List Token} {levels : Nat}
    (fills : (operandRule levels).Fills source (Expr.HasAround source) InDataRow) (level : Nat) :
    (Expression (operandRule levels) level).Fills source (Expr.HasAround source) InDataRow where
  begins := by
    intro used value next reading
    cases reading with
    | intro reading => exact (fills.begins reading).inFront _
  ends := by
    intro used value next reading
    have ends := operandRule_endsWithOperand levels
    cases reading with
    | intro reading others =>
      obtain ⟨front, last, same, isEnd⟩ := others.ends ends (ends reading)
      exact ⟨front, last, same, TokenKind.endsSomething_of_endsOperand isEnd⟩
  orderly := by
    intro used value next reading stretch
    cases reading with
    | intro reading others =>
      exact (others.orderly fills (fills.orderly reading stretch.left) (fills.ends reading)
        stretch.right).1

/-- **What is known of the tokens of an operand.** -/
theorem operandRule_fills (source : List Token) (levels : Nat) :
    (operandRule levels).Fills source (Expr.HasAround source) InDataRow := by
  induction levels with
  | zero => exact { ends := nofun, orderly := nofun, begins := nofun }
  | succ levels ih =>
    have ends := operandRule_endsWithOperand (levels + 1)
    exact
      { begins := fun _ _ _ reading => reading.begins
        ends := fun _ _ _ reading => by
          obtain ⟨front, last, same, isEnd⟩ := ends reading
          exact ⟨front, last, same, TokenKind.endsSomething_of_endsOperand isEnd⟩
        orderly := fun _ _ _ reading stretch =>
          Operand.orderly (expression_fills ih) (Expression.nests (operandRule_nests levels))
            (Expression.spanned (operandRule_spanned levels))
            (Expression.standsWhole (operandRule_standsWhole levels)) reading stretch }

/-- **What is known of the tokens of an expression.** -/
theorem ExpressionOfLevel.orderly {source : List Token} {level : Nat} {used : List Token}
    {value : Expr} {next : TokenKind} (reading : ExpressionOfLevel level used value next)
    (stretch : Stretch source used) : Orderly (value.HasAround source) InDataRow used :=
  (expression_fills (operandRule_fills source maxNesting) level).orderly reading stretch

end Rule

end DaxScript
